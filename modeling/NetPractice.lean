import NetPractice.Transition.Core
import NetPractice.Memory.LinkedList
import NetPractice.Timer.Core
import NetPractice.Timer.Linked
import NetPractice.Timer.Adjustment
import NetPractice.Timer.Expiry
import NetPractice.Timer.Correctness
import NetPractice.Text.CString
import NetPractice.Text.LastLine
import NetPractice.Socket.Core
import NetPractice.Socket.Stream
import NetPractice.PollChat.Core
import NetPractice.PollChat.Table
import NetPractice.PollChat.Delivery
import NetPractice.PollChat.Interest
import NetPractice.ShmChat.Core
import NetPractice.ShmChat.Segments
import NetPractice.ShmChat.Shutdown
import NetPractice.Memory.DenseTable
import NetPractice.ShmChat.Descriptors
import NetPractice.ShmChat.Ledger
import NetPractice.ShmChat.ChildSteps
import NetPractice.ShmChat.Relay
import NetPractice.ShmChat.Delivery
import NetPractice.Memory.IndexTable
import NetPractice.ShmChat.PidTable
import NetPractice.Text.StringFunctions
import NetPractice.Http.Conn
import NetPractice.Http.Parsing
import NetPractice.Http.BufferSafety
import NetPractice.Http.Append
import NetPractice.Http.Lines
import NetPractice.Http.Requests
import NetPractice.Http.Content
import NetPractice.Http.Segmentation
import NetPractice.Http.Response
import NetPractice.Http.Delivery
import NetPractice.Http.Capacity
import NetPractice.Http.Server
import NetPractice.Http.Calls
import NetPractice.Http.Places
import NetPractice.Http.Ownership
import NetPractice.Transition.Undefined
import NetPractice.Http.Overwrites
import NetPractice.Http.Mappings
import NetPractice.Http.UserCount
import NetPractice.Transition.Threads
import NetPractice.ThreadPool.Core
import NetPractice.ThreadPool.Handoff
import NetPractice.ThreadPool.Capacity
import NetPractice.ThreadPool.Lifetime
import NetPractice.ThreadPool.AllOrNothing
import NetPractice.LineReader.Core
import NetPractice.LineReader.Stream
import NetPractice.LineReader.Correctness
import NetPractice.LineReader.Descriptors
import NetPractice.LineReader.Reentrant
import NetPractice.LineReader.Agreement
import NetPractice.Memory.LinearBuffer
import NetPractice.CopyLoop.Core
import NetPractice.CopyLoop.Correctness
import NetPractice.WebClient.Core
import NetPractice.WebClient.Join
import NetPractice.ReliableUdp.Core
import NetPractice.Memory.Ring
import NetPractice.SigioEcho.Core
import NetPractice.SigioEcho.Queue
import NetPractice.ReliableUdp.Correctness
import NetPractice.ReliableUdp.Estimators
import NetPractice.OneShot.Core
import NetPractice.OneShot.Handover
import NetPractice.ProcessPool.Construction
import NetPractice.ProcessPool.Core
import NetPractice.ProcessPool.Dispatch
import NetPractice.ProcessPool.Service
import NetPractice.IdleServer.Core
import NetPractice.IdleServer.Frames
import NetPractice.IdleServer.Correspondence
import NetPractice.IdleServer.References
import NetPractice.Socket.Backlog
import NetPractice.EdgeTriggered.AcceptLoops
import NetPractice.Http.Isolation
import NetPractice.Http.KeepAlive
import NetPractice.Http.Linger
import NetPractice.Http.RequestStores
import NetPractice.RequestReader.Core
import NetPractice.RequestReader.Judgment
import NetPractice.RequestReader.RequestLine
import NetPractice.RequestReader.Segmentation
import NetPractice.RequestReader.Grammar
import NetPractice.Http.ContentLength
import NetPractice.Text.Path
import NetPractice.Http.DocumentRoot
import NetPractice.Http.RequestLine
import NetPractice.Http.BadLines
import NetPractice.Http.Framing
import NetPractice.Http.RealFile
import NetPractice.MiniHttpd.Core
import NetPractice.MiniHttpd.DocumentRoot
import NetPractice.MiniHttpd.Lines
import NetPractice.MiniHttpd.RequestLine
import NetPractice.MiniHttpd.Paths
import NetPractice.MiniHttpd.ServeFile
import NetPractice.MiniHttpd.FileBody
import NetPractice.MiniHttpd.Headers
import NetPractice.Transition.Loops
import NetPractice.Memory.SlotTable
import NetPractice.SelectServer.Core
import NetPractice.SelectServer.Bookkeeping
import NetPractice.Memory.Reading
import NetPractice.Memory.ByteOrder
import NetPractice.KeyMessage.Core
import NetPractice.KeyMessage.Bounds
import NetPractice.Checksum.OnesComplement
import NetPractice.Checksum.Core
import NetPractice.UdpChecksum.Core
import NetPractice.UdpChecksum.Verification
import NetPractice.Memory.KeySet
import NetPractice.NonblockClient.Core
import NetPractice.NonblockClient.Bookkeeping
import NetPractice.Icmpd.Core
import NetPractice.Icmpd.Ownership
import NetPractice.Icmpd.Bounds
import NetPractice.Traceroute.Reply
import NetPractice.DescriptorPassing.Core
import NetPractice.DescriptorPassing.Conservation
import NetPractice.CgiServer.Core
import NetPractice.CgiServer.Extraction
import NetPractice.Memory.Chain
import NetPractice.Memory.Owned
import NetPractice.AddrInfo.Core
import NetPractice.AddrInfo.Services
import NetPractice.AddrInfo.Lookup
import NetPractice.AddrInfo.Release
import NetPractice.AddrInfo.Success
import NetPractice.Prethreaded.Core
import NetPractice.Prethreaded.Ring
import NetPractice.Prethreaded.Threads
import NetPractice.Prethreaded.Queue
import NetPractice.PollServer.Core
import NetPractice.PollServer.Readiness
import NetPractice.SigioEcho.Overflow
import NetPractice.TriggerModes.Core
import NetPractice.TriggerModes.Agreement
import NetPractice.MixedEcho.Core
import NetPractice.MixedEcho.Faithful
import NetPractice.Text.Numeral
import NetPractice.Text.Joined
import NetPractice.Sequence.LongestRun
import NetPractice.Inet.Core
import NetPractice.Inet.DottedQuad
import NetPractice.Inet.Grammar
import NetPractice.Inet.Canonical
import NetPractice.Inet.RoundTrip
import NetPractice.Transition.Reachable
import NetPractice.Counter.Core
import NetPractice.Counter.LostUpdates
import NetPractice.Counter.Locked
import NetPractice.BoundedBuffer.Core
import NetPractice.BoundedBuffer.Queue
import NetPractice.Broadcast.Core
import NetPractice.Broadcast.Interrupted
import NetPractice.Broadcast.Reliable
import NetPractice.Broadcast.Jumps
import NetPractice.Prefork.Core
import NetPractice.Prefork.Locks
import NetPractice.Memory.Stores
import NetPractice.KeyMessage.Add
import NetPractice.KeyMessage.RoundTrip
import NetPractice.Socket.Pipe
import NetPractice.EchoSession.Core
import NetPractice.EchoSession.HalfClose
import NetPractice.EchoSession.Deadlock
import NetPractice.EchoSession.Lines
import NetPractice.EchoSession.Processes
import NetPractice.EchoSession.ProcessSteps
import NetPractice.EchoSession.Concurrent
import NetPractice.SumSession.Core
import NetPractice.SumSession.LockStep
import NetPractice.ForkServer.Core
import NetPractice.ForkServer.Zombies
