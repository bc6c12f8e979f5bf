import MyHttpServer.Lib.WhileLoop
import MyHttpServer.Lib.CString
import MyHttpServer.Lib.Fallible
import MyHttpServer.Lib.Lines
import MyHttpServer.Lib.Path
import MyHttpServer.Lib.System
import MyHttpServer.Lib.Interactive
import MyHttpServer.Lib.Heap
import MyHttpServer.Lib.Routine
import MyHttpServer.Model.Cpp
import MyHttpServer.Model.Socket
import MyHttpServer.Model.Util
import MyHttpServer.Model.Os
import MyHttpServer.Model.Protocal
import MyHttpServer.Model.ThreadPool
import MyHttpServer.Model.Exchange
import MyHttpServer.Model.TestCgi
import MyHttpServer.Model.Process
import MyHttpServer.Model.Loop
import MyHttpServer.Model.Startup
import MyHttpServer.Model.Timer
import MyHttpServer.Model.HeapRun
import MyHttpServer.Model.LogFormatter
import MyHttpServer.Model.Log
import MyHttpServer.Model.Worker
import MyHttpServer.Model.Server
import MyHttpServer.Model.WebBench
import MyHttpServer.Model.Main
import MyHttpServer.Proof.Recv
import MyHttpServer.Proof.ReaLine
import MyHttpServer.Proof.Arrival
import MyHttpServer.Proof.Request
import MyHttpServer.Proof.Whole
import MyHttpServer.Proof.Send
import MyHttpServer.Proof.Drop
import MyHttpServer.Proof.Os
import MyHttpServer.Proof.Build
import MyHttpServer.Proof.Trace
import MyHttpServer.Proof.Within
import MyHttpServer.Proof.Header
import MyHttpServer.Proof.Response
import MyHttpServer.Proof.Head
import MyHttpServer.Proof.Body
import MyHttpServer.Proof.RequestLine
import MyHttpServer.Proof.MediaType
import MyHttpServer.Proof.Size
import MyHttpServer.Proof.ErrorPage
import MyHttpServer.Proof.Cgi
import MyHttpServer.Proof.Pipes
import MyHttpServer.Proof.Worker
import MyHttpServer.Proof.Contract
import MyHttpServer.Proof.Crash
import MyHttpServer.Proof.Stale
import MyHttpServer.Proof.Short
import MyHttpServer.Proof.Descriptor
import MyHttpServer.Proof.Target
import MyHttpServer.Proof.Missing
import MyHttpServer.Proof.Pool
import MyHttpServer.Proof.Exchange
import MyHttpServer.Proof.TestCgi
import MyHttpServer.Proof.Transport
import MyHttpServer.Proof.Isolation
import MyHttpServer.Proof.Pattern
import MyHttpServer.Proof.Escape
import MyHttpServer.Proof.Buffer
import MyHttpServer.Proof.Order
import MyHttpServer.Proof.TimeHeap
import MyHttpServer.Proof.Percolate
import MyHttpServer.Proof.Timer
import MyHttpServer.Proof.HeapRun
import MyHttpServer.Proof.Drain
import MyHttpServer.Proof.Bounds
import MyHttpServer.Proof.Reentry
import MyHttpServer.Proof.Logger
import MyHttpServer.Proof.FileAppender
import MyHttpServer.Proof.LogText
import MyHttpServer.Proof.Reserve
import MyHttpServer.Proof.Ledger
import MyHttpServer.Proof.Ownership
import MyHttpServer.Proof.Server
import MyHttpServer.Proof.Quiesce
import MyHttpServer.Proof.Reply
import MyHttpServer.Proof.Calculator
import MyHttpServer.Proof.WebBench
import MyHttpServer.Proof.Main
import MyHttpServer.Proof.Startup
import MyHttpServer.Proof.Lifetime
