import Tunosocks.Foundation.Machine
import Tunosocks.Foundation.Buffer
import Tunosocks.Foundation.OnesComplement
import Tunosocks.Foundation.Footprint
import Tunosocks.Foundation.Reference
import Tunosocks.Socks5.ProtocolHelper
import Tunosocks.Udp.Session
import Tunosocks.Udp.HeaderChecksum
import Tunosocks.Udp.Layout
import Tunosocks.Udp.Packet
import Tunosocks.Udp.ReplyPacket
import Tunosocks.Udp.Handler
import Tunosocks.Udp.Relay
import Tunosocks.Udp.ClientNat
import Tunosocks.Udp.Stability
import Tunosocks.Foundation.Coroutine
import Tunosocks.Tcp.Lwip
import Tunosocks.Tcp.Session
import Tunosocks.Tcp.Handler
import Tunosocks.Tcp.Moves
import Tunosocks.Tcp.Status
import Tunosocks.Tcp.Shape
import Tunosocks.Tcp.Detach
import Tunosocks.Tcp.UploadOrder
import Tunosocks.Tcp.Backlog
import Tunosocks.Tcp.Custody
import Tunosocks.Tcp.Reader
import Tunosocks.Tcp.Mapped
import Tunosocks.Tcp.Link
import Tunosocks.Tcp.SessionMap
import Tunosocks.Tcp.Download
import Tunosocks.Tcp.Handshake
import Tunosocks.Tcp.Chunking
import Tunosocks.PacketHandler
import Tunosocks.Udp.Alive
import Tunosocks.Udp.Receive
import Tunosocks.Udp.UdpChecksum
import Tunosocks.Fragments
import Tunosocks.Tcp.DeadRemote
import Tunosocks.Tcp.HalfClose
import Tunosocks.Tcp.GracefulClose
import Tunosocks.Foundation.LinkedList
import Tunosocks.Tcp.Demux
import Tunosocks.Tcp.Listeners
import Tunosocks.Tcp.Accept
import Tunosocks.Udp.InternetChecksum
import Tunosocks.Foundation.Regex
import Tunosocks.Socks5.Patterns
import Tunosocks.Socks5.Codec
import Tunosocks.NetifOutput
import Tunosocks.Tcp.FlowControl
import Tunosocks.Tcp.Request
import Tunosocks.Tcp.Chains
import Tunosocks.Tcp.CloseOnce
import Tunosocks.Lifecycle
import Tunosocks.Foundation.Serial
import Tunosocks.Foundation.Reassembly
import Tunosocks.Lwip.PbufChain
import Tunosocks.Lwip.TcpReceive
import Tunosocks.Lwip.Reassembly
import Tunosocks.Lwip.InOrder
import Tunosocks.Lwip.RcvWindow
import Tunosocks.Foundation.Outgoing
import Tunosocks.Lwip.TcpSend
import Tunosocks.Lwip.SendQueue
import Tunosocks.Lwip.Segmenting
import Tunosocks.Lwip.SendFrame
import Tunosocks.Lwip.Transmit
import Tunosocks.Lwip.Steady
import Tunosocks.Lwip.SendHazards
import Tunosocks.Lwip.Options
import Tunosocks.Lwip.Block
import Tunosocks.Lwip.Connection
import Tunosocks.Lwip.CoarseBlock
import Tunosocks.Lwip.Lifetime
import Tunosocks.Lwip.Handshake
import Tunosocks.Lwip.Wire
import Tunosocks.Lwip.ConnectionRun
