import Mtbolt.ExtServer.ClientRandom
import Mtbolt.Worker.Pairing
import Mtbolt.ExtServer.Camouflage
import Mtbolt.Secrets.Tracking
import Mtbolt.Worker.Fork
import Mtbolt.Worker.Quota
import Mtbolt.Mtproto.FakeTls
import Mtbolt.Mtproto.Engine
import Mtbolt.Net.ListeningGate
import Mtbolt.Worker.References
import Mtbolt.Worker.LiveIps
import Mtbolt.Direct.DcOverride
import Mtbolt.Direct.Socks5Run
import Mtbolt.Direct.FrameRun
import Mtbolt.ExtServer.ServerHello
import Mtbolt.Mtproto.ExtHeapRun
import Mtbolt.Rpc.FrameRun
import Mtbolt.Rpc.NoDowngrade
import Mtbolt.Worker.SlotKeys
import Mtbolt.ExtServer.Probe
import Mtbolt.ExtServer.ProxyPass
import Mtbolt.Net.Ja4
import Mtbolt.Direct.Obfs2Init
import Mtbolt.ExtServer.FrameLength
import Mtbolt.ExtServer.ProbeRequest
import Mtbolt.Net.ProxyGrammar
import Mtbolt.Net.HttpDate
import Mtbolt.Secrets.UniqueIps
import Mtbolt.Jobs.JobTimers
