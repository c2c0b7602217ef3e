import WebServer.Lib.Machine
import WebServer.Lib.Ledger
import WebServer.Base.Buffer
import WebServer.Base.Shutdown
import WebServer.Base.LogOrder
import WebServer.Base.AppendFile
import WebServer.Net.Output
import WebServer.Net.Registry
import WebServer.Net.ForceClose
import WebServer.Net.Batch
import WebServer.Http.HttpData
import WebServer.Http.Leak
import WebServer.Http.Segments
import WebServer.Net.TaskQueue
import WebServer.Net.Cancel
import WebServer.Net.Deadline
import WebServer.Net.Interval
import WebServer.Net.PoolCalls
import WebServer.Net.IdleCalls
import WebServer.Net.StartUp
import WebServer.Net.Graceful
import WebServer.Net.ForeignSend
import WebServer.Http.Response
import WebServer.Http.Grammar
import WebServer.Http.RoundTrip
import WebServer.Http.Resume
import WebServer.Http.Answers
import WebServer.Base.Blocked
import WebServer.Http.Rounds
import WebServer.Net.Interest
import WebServer.Net.Accept
import WebServer.Net.AddTimer
import WebServer.Base.LogFile
import WebServer.Base.LogStream
import WebServer.Net.Expired
import WebServer.Net.Descriptors
import WebServer.Base.Spares
import WebServer.Base.Capacity
import WebServer.Lib.Decimal
import WebServer.Base.Convert
import WebServer.Net.RoundRobin
import WebServer.Net.Relay
import WebServer.Base.LogPipeline
import WebServer.Base.Timestamp
import WebServer.Base.Logging
import WebServer.Base.Thread
import WebServer.Net.Firing
import WebServer.Base.PoolStop
import WebServer.Net.Quit
import WebServer.Http.WebBench
import WebServer.Lib.Peak
import WebServer.Net.Recycle
import WebServer.Net.Poll
import WebServer.Net.LoopThread
import WebServer.Http.Bench
