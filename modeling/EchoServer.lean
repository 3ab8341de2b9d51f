import EchoServer.Lib.Machine
import EchoServer.Lib.Threads
import EchoServer.Lib.Framing
import EchoServer.Lib.Codec
import EchoServer.Lib.Ranks
import EchoServer.Lib.Feed
import EchoServer.Lib.TokenBucket
import EchoServer.Lib.Decimals
import EchoServer.Lib.Lines
import EchoServer.Lib.Exposition
import EchoServer.Proto.ByteOrder
import EchoServer.Proto.Frame
import EchoServer.Proto.Messages
import EchoServer.Proto.Body
import EchoServer.Proto.Fields
import EchoServer.Net.ReceiveBuffer
import EchoServer.Net.InboundStream
import EchoServer.Net.SendBuffer
import EchoServer.Net.SendPath
import EchoServer.Net.BufferRuns
import EchoServer.Net.ReceiveMemory
import EchoServer.Net.RateLimit
import EchoServer.Net.RateConformance
import EchoServer.Net.SendLimit
import EchoServer.Net.FailedSend
import EchoServer.Net.Acceptor
import EchoServer.Net.AdminServer
import EchoServer.Net.ConnectionTable
import EchoServer.Core.Latency
import EchoServer.Core.Buckets
import EchoServer.Core.Percentiles
import EchoServer.Core.SwapQueue
import EchoServer.Core.WakeUp
import EchoServer.Core.Timers
import EchoServer.Core.SessionKey
import EchoServer.Core.Log
import EchoServer.Core.LogQueue
import EchoServer.Core.IniReader
import EchoServer.App.Reply
import EchoServer.App.Route
import EchoServer.App.Events
import EchoServer.App.Handlers
import EchoServer.App.Judgement
import EchoServer.App.History
import EchoServer.App.Statistics
import EchoServer.App.Metrics
import EchoServer.Db.Types
import EchoServer.Db.RequestDispatcher
import EchoServer.Db.WorkerPool
import EchoServer.Db.SessionOrder
import EchoServer.Db.DispatcherRuns
import EchoServer.Db.PoolStop
import EchoServer.Db.QueueCounters
import EchoServer.Db.Deadlines
import EchoServer.Db.Results
import EchoServer.Db.Tables
import EchoServer.Db.MysqlConnection
import EchoServer.Db.WorkerCalls
import EchoServer.Db.Agreement
import EchoServer.Db.CallOutcomes
import EchoServer.Db.CleanConnection
import EchoServer.Db.SaveBatches
import EchoServer.Db.CounterOnce
import EchoServer.Db.SessionLog
import EchoServer.Db.DispatcherTurns
import EchoServer.Db.Reconnect
import EchoServer.System.ConnectionThreads
import EchoServer.System.Backpressure
import EchoServer.System.Lifetime
import EchoServer.System.PausedConnections
import EchoServer.System.Operations
import EchoServer.System.GameService
import EchoServer.System.ChatService
import EchoServer.System.Server
import EchoServer.System.Effects
import EchoServer.System.Queues
import EchoServer.System.Adoption
import EchoServer.System.Membership
import EchoServer.System.FatalAnswers
import EchoServer.System.SessionNames
import EchoServer.System.Pushes
import EchoServer.System.Replies
import EchoServer.System.BroadcastOrder
import EchoServer.System.Receivers
import EchoServer.System.Passing
import EchoServer.System.OneReply
import EchoServer.System.Transfers
import EchoServer.System.DbReplies
import EchoServer.System.Shutdown
import EchoServer.System.GameThread
import EchoServer.System.ReplyOrder
import EchoServer.System.KeyFirst
import EchoServer.System.SimpleClient
