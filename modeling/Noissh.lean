import Noissh.EscapeKeys
import Noissh.Bridge
import Noissh.Screens
import Noissh.Admission
import Noissh.Attention
import Noissh.ClientSend
import Noissh.Codecs
import Noissh.CloseStatus
import Noissh.Datagram
import Noissh.Reattach
import Noissh.ForwardDelivery
import Noissh.ForwardEnds
import Noissh.ExecEnds
import Noissh.ExecOutput
import Noissh.GridTotal
import Noissh.InputChannel
import Noissh.KeptShells
import Noissh.PendingLimit
import Noissh.Quiescence
import Noissh.Recovery
import Noissh.ServerInput
import Noissh.StdinDelivery
import Noissh.Strangers
import Noissh.TransferExact
import Noissh.Uploads
import Noissh.HostilePeer
import Noissh.ReceiveWindow
import Noissh.Display
import Noissh.PaintSafety
import Noissh.PredictSafety
import Noissh.DiffSafety
import Noissh.DiffSize
import Noissh.WireRange
import Noissh.SendRuns
import Noissh.ByteMap
import Noissh.Packing
import Noissh.WidePairs
import Noissh.PredictRun
import Noissh.HostGlob
import Noissh.HostPins
import Noissh.ForgetHost
import Noissh.SocksRuns
import Noissh.RttRange
import Noissh.Karn
import Noissh.Varint
import Noissh.Durable
import Noissh.Learned
import Noissh.PinStore
import Noissh.PinStoreSafety
import Noissh.PinsKept
import Noissh.SourceFile
