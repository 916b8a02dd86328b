import Sponge.Host.Adapters
import Sponge.Host.Applications
import Sponge.Host.Descriptor
import Sponge.Host.EventLoop
import Sponge.Host.Peers
import Sponge.Host.Simulation
import Sponge.Host.Socket
import Sponge.Host.Sockets
import Sponge.Host.StreamCopy
import Sponge.Host.Turns
import Sponge.Library.BigEndian
import Sponge.Library.Checked
import Sponge.Library.Intervals
import Sponge.Library.LinkedLists
import Sponge.Library.OnesComplement
import Sponge.Library.Programs
import Sponge.Library.Readers
import Sponge.Library.Runs
import Sponge.Library.Strings
import Sponge.Library.Tiles
import Sponge.Network.Benchmark
import Sponge.Network.Close
import Sponge.Network.Conformance
import Sponge.Network.Delivery
import Sponge.Network.FlowControl
import Sponge.Network.Integrity
import Sponge.Network.Lifecycle
import Sponge.Network.Moves
import Sponge.Network.Opening
import Sponge.Network.Outages
import Sponge.Network.Peer
import Sponge.Network.Quiescence
import Sponge.Network.Recovery
import Sponge.Network.Staying
import Sponge.Network.Traffic
import Sponge.Network.World
import Sponge.Stream.Accounting
import Sponge.Stream.ByteStream
import Sponge.Stream.Calls
import Sponge.Stream.Canonical
import Sponge.Stream.Completeness
import Sponge.Stream.EndOfStream
import Sponge.Stream.Fetch
import Sponge.Stream.Insert
import Sponge.Stream.Memory
import Sponge.Stream.Pointers
import Sponge.Stream.Push
import Sponge.Stream.Reassembler
import Sponge.Stream.Safety
import Sponge.Stream.Soundness
import Sponge.Stream.Totality
import Sponge.Tcp.Acknowledgments
import Sponge.Tcp.Calls
import Sponge.Tcp.Connection
import Sponge.Tcp.Receiver
import Sponge.Tcp.Replies
import Sponge.Tcp.Retransmission
import Sponge.Tcp.Segment
import Sponge.Tcp.Sender
import Sponge.Tcp.SenderProgress
import Sponge.Tcp.Silence
import Sponge.Tcp.State
import Sponge.Tcp.TimeWait
import Sponge.Tcp.Timer
import Sponge.Tcp.Transmission
import Sponge.Tcp.Window
import Sponge.Wire.Adapter
import Sponge.Wire.Arp
import Sponge.Wire.Buffer
import Sponge.Wire.Checksum
import Sponge.Wire.Codecs
import Sponge.Wire.Corruption
import Sponge.Wire.Datagrams
import Sponge.Wire.Ethernet
import Sponge.Wire.Parser
import Sponge.Wire.Requests
import Sponge.Wire.Segments
import Sponge.Wire.Views
