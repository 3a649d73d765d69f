import Uvcpp.Library.LinkedList
import Uvcpp.Library.Region
import Uvcpp.Library.Monitor
import Uvcpp.Library.MonitorRules
import Uvcpp.Library.MonitorProgress
import Uvcpp.Library.Wheel
import Uvcpp.Library.OwnedHeap
import Uvcpp.Library.Lifetime
import Uvcpp.Library.Merge
import Uvcpp.Buffer.DataBlock
import Uvcpp.Buffer.Basic
import Uvcpp.Buffer.Invariant
import Uvcpp.Buffer.Appending
import Uvcpp.Buffer.Consuming
import Uvcpp.Buffer.Windows
import Uvcpp.Buffer.Frame
import Uvcpp.Buffer.Refinement
import Uvcpp.Buffer.SpecialMembers
import Uvcpp.Buffer.Capacity
import Uvcpp.Buffer.Objects
import Uvcpp.Buffer.Footprint
import Uvcpp.Buffer.Integer
import Uvcpp.Buffer.NetworkOrder
import Uvcpp.Buffer.CStyleString
import Uvcpp.Stream.InputStream
import Uvcpp.Stream.Reading
import Uvcpp.Stream.Moved
import Uvcpp.Stream.BackingUp
import Uvcpp.Stream.OutputStream
import Uvcpp.Stream.Budget
import Uvcpp.Codec.Basic
import Uvcpp.Codec.Parsing
import Uvcpp.Codec.Decoding
import Uvcpp.Codec.Hostile
import Uvcpp.Codec.Incremental
import Uvcpp.Codec.Pipeline
import Uvcpp.Codec.FailedDecoding
import Uvcpp.Codec.FrameArithmetic
import Uvcpp.Codec.Framing
import Uvcpp.Codec.Dispatcher
import Uvcpp.Codec.Crossing
import Uvcpp.Thread.PoolAccounting
import Uvcpp.Thread.PoolLifetime
import Uvcpp.Thread.PoolWakeups
import Uvcpp.Thread.BoundedQueueRefinement
import Uvcpp.Thread.PoolJoins
import Uvcpp.Thread.BlockingQueue
import Uvcpp.Thread.StartupHandshakes
import Uvcpp.Thread.TimerRelease
import Uvcpp.Thread.TimerDeadline
import Uvcpp.Thread.ObjectPool
import Uvcpp.Thread.Any
import Uvcpp.Thread.ThreadLocal
import Uvcpp.Thread.LoopProgress
import Uvcpp.Thread.QueueProgress
import Uvcpp.Thread.PoolProgress
import Uvcpp.Thread.LoopPoolProgress
import Uvcpp.Tcp.ConnectionClose
import Uvcpp.Tcp.HalfCloses
import Uvcpp.Tcp.SendBuffer
import Uvcpp.Tcp.SendOrder
import Uvcpp.Tcp.Echo
import Uvcpp.Tcp.ServerStart
import Uvcpp.Tcp.ServerRegistry
import Uvcpp.Tcp.ServerWheel
import Uvcpp.Tcp.AcceptLoop
import Uvcpp.Tcp.ServingRuns
import Uvcpp.Tcp.ClientAttempts
import Uvcpp.Tcp.ClientRetries
import Uvcpp.Tcp.ClientDestructor
import Uvcpp.Tcp.GetAllConnectionWaiting
