import Neqo.AckRate
import Neqo.Cc.Equiv.Spurious
import Neqo.Crypto.Equiv.KeyEpochs
import Neqo.Crypto.Equiv.PacketNumbers
import Neqo.Crypto.Equiv.PnOverlap
import Neqo.Datagram.Equiv.Conservation
import Neqo.Datagram.Equiv.RoundRobin
import Neqo.Frame.Equiv.Total
import Neqo.Http3.Settings
import Neqo.Packet.Number
import Neqo.Path.Equiv.RetirePrior
import Neqo.Path.Equiv.Structure
import Neqo.Qpack.Equiv.Cancellation
import Neqo.Qpack.Equiv.Session
import Neqo.Recovery.Equiv.Amplification
import Neqo.Recovery.Equiv.Pto
import Neqo.RecvStream.Equiv.Conservation
import Neqo.RecvStream.Equiv.FinalSize
import Neqo.RecvStream.Equiv.Limits
import Neqo.SendStream.Equiv.HasData
import Neqo.SendStream.Equiv.Progress
import Neqo.Stream.Integrity
import Neqo.Streams.Equiv.Remote
import Neqo.Streams.Equiv.SendGroups
import Neqo.Tracking.Equiv.AckFrame
