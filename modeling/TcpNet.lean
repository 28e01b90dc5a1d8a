import TcpNet.Library.Transition
import TcpNet.Library.Memory
import TcpNet.Library.OrderedSet
import TcpNet.Library.Search
import TcpNet.Library.BatchQueue
import TcpNet.Library.Cutoff
import TcpNet.Library.Trace
import TcpNet.Library.CString
import TcpNet.Buffer.Wf
import TcpNet.Buffer.Refinement
import TcpNet.EventLoop.Delivery
import TcpNet.EventLoop.Quit
import TcpNet.TcpServer.Shutdown
import TcpNet.TimerQueue.Cancel
import TcpNet.TimerQueue.Wakeups
import TcpNet.TimerQueue.Firing
import TcpNet.TimerQueue.Stale
import TcpNet.Library.While
import TcpNet.Library.LineReader
import TcpNet.Http.Response.Reader
import TcpNet.Http.Server.Segmentation
import TcpNet.Http.Server.Closing
import TcpNet.Connector.Fate
import TcpNet.Connector.Attempts
import TcpNet.TcpConnection.Hangup
import TcpNet.TcpConnection.WriteInterest
import TcpNet.Http.Context.Termination
import TcpNet.Http.Server.HeadEnd
import TcpNet.Poller.Dispatch
import TcpNet.Poller.Watching
import TcpNet.Epoller.Registered
import TcpNet.Buffer.Shrink
import TcpNet.Logging.Record
import TcpNet.NetAddress.HostPort
import TcpNet.Application.Echo
import TcpNet.Http.Server.Exchange
import TcpNet.TcpServer.Lifetime
import TcpNet.Epoller.Dispatch
import TcpNet.Multiplexer.Agreement
import TcpNet.Connector.Backoff
import TcpNet.TcpServer.Balance
import TcpNet.TcpServer.Memory
import TcpNet.Logging.Archive
import TcpNet.TcpServer.StartUp
import TcpNet.Application.Drain
