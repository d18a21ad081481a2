import SimConnect.Foundation.LittleEndian
import SimConnect.Foundation.StructLayout
import SimConnect.Foundation.Transition
import SimConnect.Foundation.Queue
import SimConnect.Foundation.Lockstep
import SimConnect.Foundation.Program
import SimConnect.Foundation.Handles
import SimConnect.Foundation.SilentCalls
import SimConnect.Foundation.VisibleCalls
import SimConnect.Foundation.CallRules
import SimConnect.Foundation.LossyLink
import SimConnect.Foundation.Machine
import SimConnect.Foundation.Passage
import SimConnect.Foundation.Processes
import SimConnect.Packet
import SimConnect.PacketLayout
import SimConnect.Comm
import SimConnect.Framing
import SimConnect.Pipes
import SimConnect.DpiBoundary
import SimConnect.RelayLoops
import SimConnect.TornPackets
import SimConnect.Workers
import SimConnect.ClientReconnect
import SimConnect.ServerReconnect
import SimConnect.CosimAccess
import SimConnect.AccessRules
import SimConnect.ForwardReceiver
import SimConnect.HostPipes
import SimConnect.Reconnection
import SimConnect.ReconnectionSteps
import SimConnect.ReplyMatching
import SimConnect.FifoMode
import SimConnect.DummyReads
import SimConnect.AccessCalls
import SimConnect.IssueCalls
import SimConnect.TransactionSizes
import SimConnect.PacketNumbers
import SimConnect.Descriptors
import SimConnect.NamedPipe
import SimConnect.PipeManagement
import SimConnect.ArrayBounds
import SimConnect.DeviceObjects
import SimConnect.Verbose
import SimConnect.PciConfig
import SimConnect.PipeCreation
import SimConnect.RelayStartup
import SimConnect.Environment
import SimConnect.PipeAlignment
import SimConnect.RtlResponder
import SimConnect.RtlSystem
import SimConnect.FifoRtl
import SimConnect.RtlLifetime
import SimConnect.NetworkMode
import SimConnect.NetworkRtl
import SimConnect.TestHost
import SimConnect.TestHostCalls
import SimConnect.ForwardComp
import SimConnect.ReconnectingRtl
