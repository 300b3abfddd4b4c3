import Muduo.Lib.Machine
import Muduo.Lib.History
import Muduo.Lib.Fifo
import Muduo.Lib.Storage
import Muduo.Base.Proofs.AsyncLoggerStop
import Muduo.Base.Proofs.QueueWaiters
import Muduo.Base.Proofs.LogStream
import Muduo.Base.Proofs.Timestamp
import Muduo.Base.Proofs.Logger
import Muduo.Net.Proofs.Buffer
import Muduo.Net.Proofs.BufferFifo
import Muduo.Net.Proofs.Compaction
import Muduo.Net.Proofs.Poller
import Muduo.Net.Proofs.TcpConnection
import Muduo.Net.Proofs.BackPressure
import Muduo.Net.Proofs.ThreadSend
import Muduo.Net.Proofs.HalfClose
import Muduo.Net.Proofs.Disconnected
import Muduo.Net.Proofs.ConnectionState
import Muduo.Net.Proofs.EventLoopQuit
import Muduo.Net.Proofs.EventLoopThread
import Muduo.Net.Proofs.TimerCancel
import Muduo.Net.Proofs.TimerDeadline
import Muduo.Net.Proofs.TimerLoop
import Muduo.Net.Proofs.TimerOrder
import Muduo.Net.Proofs.Timerfd
import Muduo.Net.Proofs.Scheduling
import Muduo.Net.Proofs.Teardown
import Muduo.Net.Proofs.QueuedWork
import Muduo.Net.Proofs.Announcements
import Muduo.Net.Proofs.Mysql
import Muduo.Http.ServedConnection
import Muduo.Http.Proofs.ServedConnection
import Muduo.Http.Proofs.HttpServer
import Muduo.Http.Proofs.BufferParse
import Muduo.Http.Proofs.LineFraming
import Muduo.Http.Proofs.ParseChunks
import Muduo.Http.Proofs.HeaderSection
import Muduo.Http.Proofs.HeaderValues
import Muduo.Http.Proofs.RequestLine
import Muduo.Http.Proofs.HttpResponse
import Muduo.Http.Proofs.HttpConnection
import Muduo.Base.Proofs.LogRolling
import Muduo.Base.Proofs.LogPipeline
import Muduo.Base.Proofs.LogStatements
import Muduo.Base.Proofs.LogBacklog
import Muduo.Net.Proofs.FunctorDelay
import Muduo.Net.Proofs.BufferedConnection
import Muduo.Net.Proofs.RoundRobin
import Muduo.Net.Proofs.IdleServer
import Muduo.Net.Proofs.TimerSpacing
import Muduo.Lib.Framing
import Muduo.Http.Proofs.HttpExchange
import Muduo.Base.Proofs.QueueProgress
import Muduo.Base.Proofs.AsyncLoggerReturns
import Muduo.Net.Polling
import Muduo.Net.Proofs.Polling
import Muduo.Base.Proofs.QueueCalls
import Muduo.Net.Proofs.MysqlCalls
import Muduo.Net.EventLoopThreadPool
import Muduo.Net.Proofs.EventLoopThreadPool
