import MiniServiceDiscover.GoHistory
import MiniServiceDiscover.GoCapacity
import MiniServiceDiscover.GoReply
import MiniServiceDiscover.GoCorrelation
import MiniServiceDiscover.JavaGoInterop
import MiniServiceDiscover.CListRefinement
import MiniServiceDiscover.CRoundTrip
import MiniServiceDiscover.CInquiry
import MiniServiceDiscover.DatagramFraming
import MiniServiceDiscover.CGoAccept
import MiniServiceDiscover.CRange
import MiniServiceDiscover.GoRange
import MiniServiceDiscover.CServing
import MiniServiceDiscover.CRegistry
import MiniServiceDiscover.CReachable
import MiniServiceDiscover.JavaInquiry
import MiniServiceDiscover.JavaReceive
import MiniServiceDiscover.CSweep
import MiniServiceDiscover.JavaPackets
import MiniServiceDiscover.SweepCoverage
import MiniServiceDiscover.JavaCalls
import MiniServiceDiscover.JavaReuse
import MiniServiceDiscover.JavaDatagrams
import MiniServiceDiscover.CMemory
import MiniServiceDiscover.CUnregister
import MiniServiceDiscover.CAggregate
import MiniServiceDiscover.GoOrder
import MiniServiceDiscover.GoRoundTrip
import MiniServiceDiscover.JavaRoundTrip
import MiniServiceDiscover.CPort
import MiniServiceDiscover.GoDiscovery
import MiniServiceDiscover.CHistory
import MiniServiceDiscover.JavaHistory
import MiniServiceDiscover.ClientAddresses
import MiniServiceDiscover.Interop
import MiniServiceDiscover.Daemons
import MiniServiceDiscover.Discovery
import MiniServiceDiscover.Network
import MiniServiceDiscover.BlockMemory
import MiniServiceDiscover.CHeap
import MiniServiceDiscover.CHeapClient
