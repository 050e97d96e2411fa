import DshClashProxy.Js.Number
import DshClashProxy.Js.Buffer
import DshClashProxy.Core.Passthrough
import DshClashProxy.Core.Transports
import DshClashProxy.Core.Vmess
import DshClashProxy.Core.Segmentation
import DshClashProxy.Core.Stop
import DshClashProxy.Core.VisionDirections
import DshClashProxy.Core.InboundHost
import DshClashProxy.Core.EncodeAddr
import DshClashProxy.Core.Shadowsocks
import DshClashProxy.Core.RuntimeSwitch
import DshClashProxy.Core.Status
import DshClashProxy.Core.Reconcile
import DshClashProxy.Core.Selection
import DshClashProxy.Core.Vless
import DshClashProxy.Core.Handshakes
import DshClashProxy.Core.Faces
import DshClashProxy.Core.CnCidrs
import DshClashProxy.Core.SentAddress
import DshClashProxy.Core.CidrRules
import DshClashProxy.Core.CnSuffixes
import DshClashProxy.Core.Ip6Loader
import DshClashProxy.Core.VmessKdf
import DshClashProxy.Core.VmessHeader
import DshClashProxy.Core.WebSocket
import DshClashProxy.Core.Socks5Request
import DshClashProxy.Core.VlessResponse
import DshClashProxy.Lib.Lines
import DshClashProxy.Core.RequestHead
import DshClashProxy.Core.ConnectPort
import DshClashProxy.Core.SsPeer
import DshClashProxy.Core.SocketFifo
import DshClashProxy.Core.HysteriaFrame
import DshClashProxy.Core.LatencySweep
import DshClashProxy.Core.AutoNode
import DshClashProxy.Core.UpdateFailure
import DshClashProxy.Core.VisionWrites
import DshClashProxy.Core.VisionReads
import DshClashProxy.Lib.Json
import DshClashProxy.Js.Numeral
import DshClashProxy.Go.Base64
import DshClashProxy.Core.NodeArgument
import DshClashProxy.Lib.Resumption
import DshClashProxy.Core.Connectors
import DshClashProxy.Core.LatencyLeak
import DshClashProxy.Core.NoProxyList
import DshClashProxy.Core.WrappedFetch
import DshClashProxy.Core.TlsSniffing
import DshClashProxy.Core.Fastest
import DshClashProxy.Core.DialableChoice
import DshClashProxy.Core.Subscription
import DshClashProxy.Core.Groups
import DshClashProxy.Core.Hysteria
import DshClashProxy.Go.Copy
import DshClashProxy.Go.HostPort
import DshClashProxy.Core.NativeConnector
import DshClashProxy.Core.EndToEnd
import DshClashProxy.Core.VmessCarried
import DshClashProxy.Core.StreamSession
import DshClashProxy.Core.ProxyChain
