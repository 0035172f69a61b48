import Riot.Core.MboxFifo
import Riot.Core.MutexInherit
import Riot.Core.MutexRestore
import Riot.Unicoap.Uint
import Riot.Nanocoap.Server
import Riot.Nanocoap.Reassembly
import Riot.Ztimer.Multiplex
import Riot.Ztimer.ConvertShift
import Riot.Ztimer.TimeoutExact
import Riot.Tcp.Demux
import Riot.Tcp.Retransmit
import Riot.Tcp.Incarnation
import Riot.Tcp.Receive
import Riot.Tcp.SequenceSpace
import Riot.Tcp.LockOrder
import Riot.Ipv6.NibCache
import Riot.Can.IsotpTransfer
import Riot.Sixlowpan.IphcRoundTrip
import Riot.Mtd.WritePage
import Riot.Rpl.SrhRoute
import Riot.EvTimer.Tracks
import Riot.Vfs.OpenFiles
import Riot.Event.Queues
import Riot.Gcoap.ObserveIsolation
import Riot.Trickle.Intervals
import Riot.Dns.Reply
import Riot.Crypto.CcmConforms
import Riot.Crypto.OcbBound
import Riot.Ztimer.ExtendExact
import Riot.Core.SendReceive
import Riot.Games.Blackjack
import Riot.Games.Runner
import Riot.Lorawan.TransactionRuns
import Riot.Pktbuf.Contents
import Riot.Psa.SlotRuns
import Riot.Submac.Runs
import Riot.Ieee802154.SecurityConforms
import Riot.Core.CibFifo
import Riot.Core.Ringbuffer
import Riot.Nanocoap.Block2
import Riot.Unicoap.Pdu
import Riot.Core.FlagWaits
import Riot.Core.RmutexRuns
import Riot.Core.ClistSorts
import Riot.Games.Boxgame
import Riot.Nanocoap.Encoders
import Riot.Nanocoap.OptRemoveRight
import Riot.Frac.Frac
import Riot.Fmt.Dfp
import Riot.Shell.Line
import Riot.Ipv6.FragReass
import Riot.Tcp.SendAccount
import Riot.Tcp.Rejected
import Riot.Sixlowpan.FragRbRuns
import Riot.Sixlowpan.IphcSendBounds
import Riot.Ipv6.NibRouters
import Riot.Vfs.MountPaths
import Riot.Event.WaitTimeout
import Riot.Core.KernelRuns
