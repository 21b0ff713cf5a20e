import LTMuduo.Lib.Machine
import LTMuduo.Lib.LeadsTo
import LTMuduo.Lib.Component
import LTMuduo.Lib.Block
import LTMuduo.Lib.Word
import LTMuduo.Lib.Keyed
import LTMuduo.Lib.Fifo
import LTMuduo.Lib.After
import LTMuduo.Lib.RoundRobin
import LTMuduo.Syscall
import LTMuduo.Buffer.Code
import LTMuduo.Buffer.Spec
import LTMuduo.Buffer.Queue
import LTMuduo.Buffer.Storage
import LTMuduo.Buffer.Strings
import LTMuduo.Buffer.SizeT
import LTMuduo.Buffer.InRange
import LTMuduo.Buffer.ValidBuffer
import LTMuduo.Poller.Code
import LTMuduo.Poller.Bookkeeping
import LTMuduo.Poller.DisableAll
import LTMuduo.Poller.Entries
import LTMuduo.Poller.Poll
import LTMuduo.EventLoop.Code
import LTMuduo.EventLoop.Threads
import LTMuduo.EventLoop.Wakeup
import LTMuduo.EventLoop.FirstPoll
import LTMuduo.EventLoop.Quit
import LTMuduo.EventLoop.Order
import LTMuduo.EventLoop.Progress
import LTMuduo.EventLoop.EventLoopThread
import LTMuduo.EventLoop.Handshake
import LTMuduo.Connection.Code
import LTMuduo.Connection.Spec
import LTMuduo.Connection.LoopThread
import LTMuduo.Connection.Logged
import LTMuduo.Connection.Output
import LTMuduo.Connection.Drain
import LTMuduo.Connection.Callbacks
import LTMuduo.Connection.CrossThread
import LTMuduo.Connection.ShutdownOrder
import LTMuduo.Connection.Captured
import LTMuduo.Connection.Registration
import LTMuduo.Connection.SharedState
import LTMuduo.Connection.Works
import LTMuduo.Connection.EchoServer
import LTMuduo.Connection.Echoed
import LTMuduo.Connection.Lifetime
import LTMuduo.Connection.Descriptor
import LTMuduo.Connection.CloseOnce
import LTMuduo.Connection.Destroyed
import LTMuduo.TcpServer.Startup
import LTMuduo.TcpServer.Code
import LTMuduo.TcpServer.Moves
import LTMuduo.TcpServer.EventLoopThreadPool
import LTMuduo.TcpServer.Dispatch
import LTMuduo.TcpServer.Ownership
import LTMuduo.TcpServer.Registry
import LTMuduo.TcpServer.InetAddress
import LTMuduo.TcpServer.Handover
import LTMuduo.TcpServer.Steps
import LTMuduo.TcpServer.Lifecycle
import LTMuduo.TcpServer.PerConnection
import LTMuduo.TcpServer.LoopMoves
import LTMuduo.TcpServer.Descriptors
import LTMuduo.TcpServer.Onward
import LTMuduo.TcpServer.Progress
import LTMuduo.TcpServer.OutputProgress
import LTMuduo.TcpServer.References
import LTMuduo.TcpServer.Teardown
import LTMuduo.TcpServer.TeardownProgress
import LTMuduo.TcpServer.Outlived
