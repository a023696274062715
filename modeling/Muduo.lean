import Muduo.Acceptor
import Muduo.AsyncLogging
import Muduo.BlockingQueue
import Muduo.BoundedBlockingQueue
import Muduo.Buffer
import Muduo.BufferGrowth
import Muduo.BufferIntegers
import Muduo.Channel
import Muduo.ClientThreads
import Muduo.Connector
import Muduo.ConnectorLoop
import Muduo.Endian
import Muduo.EventLoop
import Muduo.EventLoopThread
import Muduo.FuturePool
import Muduo.HttpContext
import Muduo.HttpServer
import Muduo.Inspector
import Muduo.Lib.BigEndian
import Muduo.Lib.Cache
import Muduo.Lib.Calendar
import Muduo.Lib.Due
import Muduo.Lib.FixedWidth
import Muduo.Lib.Incremental
import Muduo.Lib.Monitor
import Muduo.Lib.MonitorBalance
import Muduo.Lib.OrderedSet
import Muduo.Lib.Ownership
import Muduo.Lib.Permit
import Muduo.Lib.Reentrant
import Muduo.Lib.Search
import Muduo.Lib.Simulation
import Muduo.Lib.Slice
import Muduo.Lib.Slots
import Muduo.Lib.Stepper
import Muduo.Lib.Threads
import Muduo.Lib.Timeline
import Muduo.Lib.Trailing
import Muduo.Lib.Watched
import Muduo.Lib.While
import Muduo.LogPipeline
import Muduo.LogStream
import Muduo.LoggerShards
import Muduo.Logging
import Muduo.PollPoller
import Muduo.ProtobufCodec
import Muduo.RawBuffer
import Muduo.RpcChannel
import Muduo.RpcServer
import Muduo.RpcWire
import Muduo.TcpClient
import Muduo.TcpConnection
import Muduo.TcpServer
import Muduo.Theorems.Acceptor
import Muduo.Theorems.AppendFile
import Muduo.Theorems.AsyncWakeup
import Muduo.Theorems.BlockingQueue
import Muduo.Theorems.BoundedBlockingQueue
import Muduo.Theorems.BufferGrowth
import Muduo.Theorems.BufferIntegers
import Muduo.Theorems.BufferRefinement
import Muduo.Theorems.ClientDestruction
import Muduo.Theorems.ClientRules
import Muduo.Theorems.ConnectionAttempts
import Muduo.Theorems.ConnectionRules
import Muduo.Theorems.ConnectorBackoff
import Muduo.Theorems.Date
import Muduo.Theorems.Dispatch
import Muduo.Theorems.FlowControl
import Muduo.Theorems.FunctorQueue
import Muduo.Theorems.FuturePool
import Muduo.Theorems.GracefulShutdown
import Muduo.Theorems.HttpExchange
import Muduo.Theorems.HttpGrammar
import Muduo.Theorems.HttpParsing
import Muduo.Theorems.HttpResponses
import Muduo.Theorems.HttpServing
import Muduo.Theorems.Inspector
import Muduo.Theorems.Lifecycle
import Muduo.Theorems.LogFile
import Muduo.Theorems.LogFiles
import Muduo.Theorems.LogLines
import Muduo.Theorems.LogPipeline
import Muduo.Theorems.LogRecords
import Muduo.Theorems.LogStream
import Muduo.Theorems.LogTime
import Muduo.Theorems.OutputStream
import Muduo.Theorems.PollPoller
import Muduo.Theorems.PollerEquivalence
import Muduo.Theorems.ProtobufCorruption
import Muduo.Theorems.ProtobufFraming
import Muduo.Theorems.ProtobufRoundTrip
import Muduo.Theorems.QuitRequest
import Muduo.Theorems.Reconnect
import Muduo.Theorems.RecordLines
import Muduo.Theorems.Registration
import Muduo.Theorems.RpcCalls
import Muduo.Theorems.RpcCompletion
import Muduo.Theorems.RpcRelease
import Muduo.Theorems.RpcWire
import Muduo.Theorems.ServerConnections
import Muduo.Theorems.ServerDestruction
import Muduo.Theorems.ShardSelection
import Muduo.Theorems.SocketOwnership
import Muduo.Theorems.ThreadPoolCounter
import Muduo.Theorems.ThreadPoolPermits
import Muduo.Theorems.ThreadPoolSignals
import Muduo.Theorems.ThreadPoolStop
import Muduo.Theorems.ThreadPoolTasks
import Muduo.Theorems.TimeZone
import Muduo.Theorems.TimerArming
import Muduo.Theorems.TimerCancel
import Muduo.Theorems.TimerExpiry
import Muduo.Theorems.TimerFirings
import Muduo.Theorems.TimerQueue
import Muduo.Theorems.ZlibAccounting
import Muduo.Theorems.ZlibContract
import Muduo.Theorems.ZlibRelease
import Muduo.Theorems.ZlibStream
import Muduo.Theorems.ZlibTruncation
import Muduo.ThreadPool
import Muduo.TimedConnector
import Muduo.TimerQueue
import Muduo.ZlibStream
