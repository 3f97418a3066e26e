import Reunion.Client.Types
import Reunion.Client.SubMap
import Reunion.Client.World
import Reunion.Client.Exchange
import Reunion.Client.Spec
import Reunion.Client.Run
import Reunion.Client.Move
import Reunion.Client.Snapshot
import Reunion.Client.Updates
import Reunion.Client.Reference
import Reunion.Client.Repeat
import Reunion.Client.Fetch
import Reunion.Client.Opening
import Reunion.Client.Handshake
import Reunion.Safety.Invariant
import Reunion.Safety.Monotone
import Reunion.Safety.AtMostOnce
import Reunion.Safety.SelfReply
import Reunion.Safety.Provenance
import Reunion.Safety.Blocking
import Reunion.Client.Driver
import Reunion.Protocol.Board
import Reunion.Protocol.System
import Reunion.Protocol.Handshake
import Reunion.Protocol.Agreement
import Reunion.Protocol.AtMostOnce
import Reunion.Client.Progress
import Reunion.Protocol.Progress
import Reunion.Protocol.Liveness
import Reunion.Protocol.Sweeps
import Reunion.Protocol.Fairness
