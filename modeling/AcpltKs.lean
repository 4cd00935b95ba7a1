import AcpltKs.Library.BigEndian
import AcpltKs.Library.ByteMemory
import AcpltKs.Library.GuardedRun
import AcpltKs.Library.Rearrangement
import AcpltKs.Library.SharedCells
import AcpltKs.Library.RecordMarking
import AcpltKs.Library.BinaryHeap
import AcpltKs.Library.OpenAddressing
import AcpltKs.Library.BackPointers
import AcpltKs.Library.EventLog
import AcpltKs.Library.DelimitedText
import AcpltKs.Result
import AcpltKs.Plt.Sort
import AcpltKs.Plt.Long
import AcpltKs.Plt.String
import AcpltKs.Plt.StringSharing
import AcpltKs.Plt.Time
import AcpltKs.Plt.Handle
import AcpltKs.Plt.HashTable
import AcpltKs.Plt.HashTableProbing
import AcpltKs.Plt.HashTableContents
import AcpltKs.Plt.HashTableRoom
import AcpltKs.Plt.HashTableMap
import AcpltKs.Plt.List
import AcpltKs.Plt.PriorityQueue
import AcpltKs.Plt.PriorityQueueOrder
import AcpltKs.Plt.PriorityQueueSearch
import AcpltKs.Server.TimerQueue
import AcpltKs.Server.PendingEvents
import AcpltKs.Socket
import AcpltKs.MemStream.Basic
import AcpltKs.MemStream.Encoding
import AcpltKs.MemStream.Decoding
import AcpltKs.MemStream.Output
import AcpltKs.MemStream.Delivery
import AcpltKs.MemStream.RoundTrip
import AcpltKs.MemStream.Exhaustion
import AcpltKs.MemStream.Inline
import AcpltKs.MemStream.FragmentCount
import AcpltKs.MemStream.Accounting
import AcpltKs.MemStream.Fragments
import AcpltKs.Xdr
import AcpltKs.MemStream.Bounds
import AcpltKs.RpcHeader.Basic
import AcpltKs.RpcHeader.Messages
import AcpltKs.XdrMem
import AcpltKs.XdrCodec
import AcpltKs.RpcHeader.RoundTrip
import AcpltKs.Connection
import AcpltKs.Tcp.Basic
import AcpltKs.Tcp.Messages
import AcpltKs.Tcp.Receive
import AcpltKs.Tcp.Session
import AcpltKs.Tcp.Framing
import AcpltKs.Tcp.Output
import AcpltKs.Tcp.Reassembly
import AcpltKs.Tcp.Replies
import AcpltKs.Manager.Basic
import AcpltKs.Manager.Registration
import AcpltKs.Manager.Lifetime
import AcpltKs.Manager.Failures
import AcpltKs.Manager.Renewal
import AcpltKs.Manager.Search
import AcpltKs.Library.LinkedRings
import AcpltKs.Udp.Basic
import AcpltKs.ConnectionMgr.Basic
import AcpltKs.ConnectionMgr.Mirror
import AcpltKs.ConnectionMgr.Consistency
import AcpltKs.ConnectionMgr.Transports
import AcpltKs.ConnectionMgr.Lingering
import AcpltKs.ConnectionMgr.Counter
import AcpltKs.ConnectionMgr.Steadiness
import AcpltKs.InterServer.Basic
import AcpltKs.InterServer.Attention
import AcpltKs.InterServer.Automaton
import AcpltKs.InterServer.Attended
import AcpltKs.InterServer.Partner
import AcpltKs.InterServer.Answers
import AcpltKs.InterServer.EventLoop
import AcpltKs.Conversions
import AcpltKs.Percent.Decoding
import AcpltKs.Percent.RoundTrip
import AcpltKs.Percent.Buffers
import AcpltKs.Percent.UserForm
import AcpltKs.Props
import AcpltKs.Path.Basic
import AcpltKs.Path.Parsing
import AcpltKs.Path.Decoding
import AcpltKs.Path.Resolution
import AcpltKs.Path.Client
import AcpltKs.Path.Components
import AcpltKs.Library.NodeLists
import AcpltKs.Library.LevelMoves
import AcpltKs.Path.Resolving
import AcpltKs.Path.ComponentStack
import AcpltKs.Path.Reference
import AcpltKs.Path.Reading
import AcpltKs.Path.Agreement
import AcpltKs.Path.Grammar
import AcpltKs.Path.Locators
import AcpltKs.SimpleServer.Basic
import AcpltKs.SimpleServer.Naming
import AcpltKs.SimpleServer.Listing
import AcpltKs.SimpleServer.Sisters
import AcpltKs.Mask.Basic
import AcpltKs.Mask.Termination
import AcpltKs.Mask.Language
import AcpltKs.Mask.Correctness
import AcpltKs.Mask.Exactness
import AcpltKs.Service.Values
import AcpltKs.Service.Times
import AcpltKs.Service.Props
import AcpltKs.Service.Params
import AcpltKs.Service.RoundTrip
import AcpltKs.Service.Fallback
import AcpltKs.Server.Dispatch
import AcpltKs.Library.LabelledGraphs
import AcpltKs.Library.Replay
import AcpltKs.SimpleServer.Objects
import AcpltKs.SimpleServer.Names
import AcpltKs.SimpleServer.Services
import AcpltKs.SimpleServer.Registers
import AcpltKs.SimpleServer.Tree
import AcpltKs.SimpleServer.Runs
import AcpltKs.XdrStreams
import AcpltKs.Service.Alignment
import AcpltKs.Server.Tickets
import AcpltKs.Server.Requests
import AcpltKs.SimpleServer.Sendability
import AcpltKs.SimpleServer.Answering
import AcpltKs.Library.AnsweringMachines
import AcpltKs.SimpleServer.Remote
import AcpltKs.SimpleServer.Repetition
import AcpltKs.Client.LossyLink
import AcpltKs.SimpleServer.Snapshots
import AcpltKs.Client.Updates
import AcpltKs.Client.Outcomes
import AcpltKs.Client.Snapshots
import AcpltKs.Client.Coherence
import AcpltKs.Library.Grouping
import AcpltKs.Package.Basic
import AcpltKs.Package.Sorting
import AcpltKs.Package.Merging
import AcpltKs.Package.Update
import AcpltKs.Package.Replies
import AcpltKs.Package.Traversal
import AcpltKs.Library.DoWhile
import AcpltKs.Client.Transport
import AcpltKs.Client.Requests
import AcpltKs.Udp.Calls
import AcpltKs.Udp.Retransmission
import AcpltKs.Udp.Replies
import AcpltKs.Udp.Datagrams
import AcpltKs.Udp.Interference
import AcpltKs.InAddrSet.Basic
import AcpltKs.InAddrSet.Ownership
import AcpltKs.RpcHeader.Directions
import AcpltKs.Tcp.Directions
import AcpltKs.Tcp.Clients
import AcpltKs.Tcp.Calls
import AcpltKs.SimpleServer.Connections
import AcpltKs.Udp.Directions
import AcpltKs.Udp.Clients
import AcpltKs.Directions
