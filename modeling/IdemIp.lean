import IdemIp.Dhcp4Runs
import IdemIp.Dhcp6Timers
import IdemIp.DispatchConnect
import IdemIp.DispatchTables
import IdemIp.DispatchSource
import IdemIp.DnsTrust
import IdemIp.Icmp
import IdemIp.Ip4FragRuns
import IdemIp.Ip4ReassDescs
import IdemIp.Ip6FragRuns
import IdemIp.Ip6Select
import IdemIp.Nd6Routers
import IdemIp.Pmtu6
import IdemIp.TcpOut
import IdemIp.TcpPcbRuns
import IdemIp.Timeouts
