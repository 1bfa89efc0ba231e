import Mathlib.Algebra.Ring.Nat

/-!
# Build configuration of the stack, and connection variables

Table sizes and protocol constants are compile-time choices of the build. They stay
symbolic here, and every static assertion the sources rest on is a field, so a
configuration the compiler would refuse cannot be written down.
-/

namespace IdemIp

/-- Outcome every entry reports through its operand block. -/
inductive Status
  | ok | busy | err
deriving DecidableEq

/-- The index that names no entry of a 16-bit indexed table. -/
def noneIndex : ℕ := 0xFFFF

/-- The index that names no entry of an 8-bit indexed table. -/
def none8 : ℕ := 0xFF

/-- Compile-time constants of one build, with the assertions made about them. -/
structure Config where
  /-- Connections, `IDEMIP_TCP_PCBS`. -/
  tcpPcbs : ℕ
  /-- Listeners, `IDEMIP_TCP_LISTEN_PCBS`. -/
  tcpListenPcbs : ℕ
  /-- Send-queue segments, `IDEMIP_TCP_SEGS`. -/
  tcpSegs : ℕ
  /-- Held out-of-order segments of one connection, `IDEMIP_TCP_OOSEQ_SEGS`. -/
  tcpOoseqSegs : ℕ
  /-- R2 of a connection, `IDEMIP_TCP_MAXRTX`. -/
  tcpMaxrtx : BitVec 8
  /-- R2 of a SYN, `IDEMIP_TCP_SYNMAXRTX`. -/
  tcpSynmaxrtx : BitVec 8
  /-- Maximum segment lifetime, `IDEMIP_TCP_MSL_MS`. -/
  tcpMslMs : BitVec 32
  /-- Idle time after which TS.Recent is stale, `IDEMIP_TCP_TS_RECENT_MAX_MS`. -/
  tcpTsRecentMaxMs : BitVec 32
  /-- Challenge ACKs one window may carry, `IDEMIP_TCP_CHALLENGE_ACKS`. -/
  tcpChallengeAcks : BitVec 32
  /-- That window, `IDEMIP_TCP_CHALLENGE_WINDOW_MS`. -/
  tcpChallengeWindowMs : BitVec 32
  /-- Hop limit of a fresh connection, `IDEMIP_IP_DEFAULT_TTL`. -/
  ipDefaultTtl : BitVec 8
  /-- Interfaces, `IDEMIP_NETIF_COUNT`. -/
  netifCount : ℕ
  /-- Receive descriptors of one ring, `IDEMIP_RX_DESCRIPTORS`. -/
  rxDescriptors : ℕ
  /-- Pins one ring may carry, `IDEMIP_MAX_PINNED_FRAMES`. -/
  maxPinnedFrames : ℕ
  /-- Longest frame of a buffer, `IDEMIP_DMA_FRAME_MAX`. -/
  dmaFrameMax : ℕ
  /-- Octets of a cache line, `IDEMIP_CACHE_LINE_BYTES`. -/
  cacheLineBytes : ℕ
  /-- Rows of the ARP table, `IDEMIP_ARP_ENTRIES`. -/
  arpEntries : ℕ
  /-- Frames the ARP table holds, `IDEMIP_ARP_PENDING`. -/
  arpPending : ℕ
  /-- Life of a resolved row, `ARP_MAXAGE_MS`. -/
  arpMaxageMs : BitVec 32
  /-- Life of an unresolved row and of a held frame, `ARP_MAXPENDING_MS`. -/
  arpMaxpendingMs : BitVec 32
  /-- Pace of the row sweep, `IDEMIP_ARP_TMR_INTERVAL_MS`. -/
  arpTmrIntervalMs : BitVec 32
  /-- IPv4 datagrams in reassembly, `IDEMIP_IP4_REASS_DATAGRAMS`. -/
  ip4ReassDatagrams : ℕ
  /-- IPv4 fragments held, `IDEMIP_IP4_REASS_FRAGS`. -/
  ip4ReassFrags : ℕ
  /-- IPv4 hole descriptors, `IDEMIP_IP4_REASS_HOLES`. -/
  ip4ReassHoles : ℕ
  /-- Life of an IPv4 reassembly, `IDEMIP_IP_REASS_MAXAGE_S` in milliseconds. -/
  ipReassMaxageMs : BitVec 32
  /-- IPv6 datagrams in reassembly, `IDEMIP_IP6_REASS_DATAGRAMS`. -/
  ip6ReassDatagrams : ℕ
  /-- IPv6 fragments held, `IDEMIP_IP6_REASS_FRAGS`. -/
  ip6ReassFrags : ℕ
  /-- IPv6 hole descriptors, `IDEMIP_IP6_REASS_HOLES`. -/
  ip6ReassHoles : ℕ
  /-- Life of an IPv6 reassembly, `IDEMIP_IP6_REASS_MAXAGE_MS`. -/
  ip6ReassMaxageMs : BitVec 32
  /-- IPv6 addresses of one interface, `IDEMIP_IP6_ADDRESSES`. -/
  ip6Addresses : ℕ
  /-- Deadlines of the caller's list, `IDEMIP_TIMEOUTS`. -/
  timeouts : ℕ
  /-- Messages the ICMP bucket holds for a burst, `IDEMIP_ICMP4_ERR_BUCKET`. -/
  icmp4ErrBucket : ℕ
  /-- Milliseconds between two of its tokens, `IDEMIP_ICMP4_ERR_TOKEN_MS`. -/
  icmp4ErrTokenMs : ℕ
  /-- Messages the ICMPv6 bucket holds for a burst, `IDEMIP_ICMP6_ERR_BUCKET`. -/
  icmp6ErrBucket : ℕ
  /-- Milliseconds between two of its tokens, `IDEMIP_ICMP6_ERR_TOKEN_MS`. -/
  icmp6ErrTokenMs : ℕ
  /-- UDP bindings, `IDEMIP_UDP_PCBS`. -/
  udpPcbs : ℕ
  /-- Outstanding DNS questions, `IDEMIP_DNS_QUERIES`. -/
  dnsQueries : ℕ
  /-- Cached DNS answers, `IDEMIP_DNS_ENTRIES`. -/
  dnsEntries : ℕ
  /-- DNS servers, `IDEMIP_DNS_SERVERS`. -/
  dnsServers : ℕ
  /-- Octets of one name region, `DNS_NAME_BYTES`. -/
  dnsNameBytes : ℕ
  /-- First retry interval of a question, `IDEMIP_DNS_RETRY_MS`. -/
  dnsRetryMs : BitVec 32
  /-- Longest retry interval, `IDEMIP_DNS_RETRY_MAX_MS`. -/
  dnsRetryMaxMs : BitVec 32
  /-- Longest life of a cached answer in seconds, `IDEMIP_DNS_TTL_MAX_S`. -/
  dnsTtlMaxS : BitVec 32
  /-- Life of a negative answer in seconds, `IDEMIP_DNS_NEG_TTL_S`. -/
  dnsNegTtlS : BitVec 32
  /-- Rows of the Neighbor Cache, `IDEMIP_ND6_NUM_NEIGHBORS`. -/
  nd6Neighbors : ℕ
  /-- Rows of the Destination Cache, `IDEMIP_ND6_NUM_DESTINATIONS`. -/
  nd6Destinations : ℕ
  /-- Rows of the Prefix List, `IDEMIP_ND6_NUM_PREFIXES`. -/
  nd6Prefixes : ℕ
  /-- Rows of the Default Router List, `IDEMIP_ND6_NUM_ROUTERS`. -/
  nd6Routers : ℕ
  /-- Frames held for resolution, `IDEMIP_ND6_PENDING`. -/
  nd6Pending : ℕ
  /-- Solicitations before resolution fails, `IDEMIP_ND6_MAX_MULTICAST_SOLICIT`. -/
  nd6MaxMulticastSolicit : BitVec 8
  /-- Solicitations before a probed neighbor is given up, `IDEMIP_ND6_MAX_UNICAST_SOLICIT`. -/
  nd6MaxUnicastSolicit : BitVec 8
  /-- Time between two draws of ReachableTime, `IDEMIP_ND6_REACHABLE_REDRAW_MS`. -/
  nd6ReachableRedrawMs : BitVec 32
  /-- BaseReachableTime until one is advertised, `IDEMIP_ND6_REACHABLE_TIME_MS`. -/
  nd6ReachableTimeMs : BitVec 32
  /-- RetransTimer until one is advertised, `IDEMIP_ND6_RETRANS_TIMER_MS`. -/
  nd6RetransTimerMs : BitVec 32
  /-- Wait before the first probe, `IDEMIP_ND6_DELAY_FIRST_PROBE_MS`. -/
  nd6DelayFirstProbeMs : BitVec 32
  /-- `tcp_pcb_syn_received_on` counts connections in eight bits. -/
  tcpPcbs_le : tcpPcbs≤255
  /-- Every listener and segment index differs from `noneIndex`. -/
  tcpListenPcbs_lt : tcpListenPcbs<noneIndex
  tcpSegs_lt : tcpSegs<noneIndex
  tcpOoseqEntries_lt : tcpPcbs*tcpOoseqSegs<noneIndex
  /-- An interface index is one octet below `IDEMIP_DISPATCH_NETIF_NONE`. -/
  netifCount_lt : netifCount<0xFF
  rxDescriptors_le : rxDescriptors≤0xFF
  /-- The ring keeps a descriptor when every retaining unit is full. -/
  maxPinnedFrames_lt : maxPinnedFrames < rxDescriptors
  dmaFrameMax_le : dmaFrameMax≤0xFFFF
  /-- The indices and links of the ARP and reassembly tables are one octet below their none. -/
  arpEntries_lt : arpEntries<0xFF
  arpPending_lt : arpPending<0xFF
  ip4ReassDatagrams_lt : ip4ReassDatagrams<0xFF
  ip4ReassFrags_lt : ip4ReassFrags<0xFF
  ip4ReassHoles_lt : ip4ReassHoles<0xFF
  /-- One hole a datagram and one a fragment. -/
  ip4ReassHoles_ge : ip4ReassDatagrams+ip4ReassFrags ≤ ip4ReassHoles
  ip6ReassDatagrams_lt : ip6ReassDatagrams<0xFF
  ip6ReassFrags_lt : ip6ReassFrags<0xFF
  ip6ReassHoles_lt : ip6ReassHoles<0xFF
  ip6ReassHoles_ge : ip6ReassDatagrams+ip6ReassFrags ≤ ip6ReassHoles
  /-- A deadline's index is one octet below the end of the list. -/
  timeouts_le : timeouts≤none8
  /-- A bucket holds a token, and their count is one octet. -/
  icmp4ErrBucket_pos : 0 < icmp4ErrBucket
  icmp4ErrBucket_lt : icmp4ErrBucket<2^8
  /-- A token takes time, and a bucket of them fits the clock. -/
  icmp4ErrTokenMs_pos : 0 < icmp4ErrTokenMs
  icmp4ErrBucketMs_lt : icmp4ErrBucket*icmp4ErrTokenMs<2^32
  icmp6ErrBucket_pos : 0 < icmp6ErrBucket
  icmp6ErrBucket_lt : icmp6ErrBucket<2^8
  icmp6ErrTokenMs_pos : 0 < icmp6ErrTokenMs
  icmp6ErrBucketMs_lt : icmp6ErrBucket*icmp6ErrTokenMs<2^32
  /-- The dynamic ports are more than the bindings. -/
  udpPcbs_le : udpPcbs≤0x3FFF
  /-- The walk over the servers wraps with an AND. -/
  dnsServers_pow : dnsServers &&& (dnsServers-1)=0
  /-- A name region holds the longest name and its terminator. -/
  dnsNameBytes_ge : 256≤dnsNameBytes
  /-- Every Neighbor Discovery index differs from `none8`. -/
  nd6Neighbors_lt : nd6Neighbors<0xFF
  nd6Destinations_lt : nd6Destinations<0xFF
  nd6Prefixes_lt : nd6Prefixes<0xFF
  nd6Routers_lt : nd6Routers<0xFF
  nd6Pending_lt : nd6Pending<0xFF
  /-- The solicitations of one resolution and the wait behind them are a power of two. -/
  nd6MaxMulticastSolicit_eq : nd6MaxMulticastSolicit.toNat+1=2^2
  /-- The default RetransTimer fits the span of a deadline. -/
  nd6RetransTimerMs_le : nd6RetransTimerMs≤0x1FFFFFFF

/-- Held segments across every connection, `TCP_PCB_OOSEQ_ENTRIES`. -/
def Config.tcpOoseqEntries (cfg : Config) : ℕ := cfg.tcpPcbs*cfg.tcpOoseqSegs

/-- Distance of two frame buffers, `IDEMIP_DMA_BUF_STRIDE`: a frame rounded up to whole cache lines. -/
def Config.dmaBufStride (cfg : Config) : ℕ :=
  (cfg.dmaFrameMax+cfg.cacheLineBytes-1)/cfg.cacheLineBytes*cfg.cacheLineBytes

/-- The constants `idemip_config.h` ships. -/
def Config.shipped : Config where
  tcpPcbs := 5
  tcpListenPcbs := 8
  tcpSegs := 16
  tcpOoseqSegs := 4
  tcpMaxrtx := 12
  tcpSynmaxrtx := 8
  tcpMslMs := 120000
  tcpTsRecentMaxMs := 2073600000
  tcpChallengeAcks := 10
  tcpChallengeWindowMs := 5000
  ipDefaultTtl := 255
  netifCount := 2
  rxDescriptors := 64
  maxPinnedFrames := 48
  dmaFrameMax := 1514
  cacheLineBytes := 32
  arpEntries := 10
  arpPending := 4
  arpMaxageMs := 300000
  arpMaxpendingMs := 5000
  arpTmrIntervalMs := 1000
  ip4ReassDatagrams := 5
  ip4ReassFrags := 12
  ip4ReassHoles := 17
  ipReassMaxageMs := 60000
  ip6ReassDatagrams := 5
  ip6ReassFrags := 8
  ip6ReassHoles := 13
  ip6ReassMaxageMs := 60000
  ip6Addresses := 4
  timeouts := 17
  icmp4ErrBucket := 10
  icmp4ErrTokenMs := 100
  icmp6ErrBucket := 10
  icmp6ErrTokenMs := 100
  udpPcbs := 8
  dnsQueries := 4
  dnsEntries := 8
  dnsServers := 2
  dnsNameBytes := 256
  dnsRetryMs := 2000
  dnsRetryMaxMs := 32000
  dnsTtlMaxS := 604800
  dnsNegTtlS := 300
  nd6Neighbors := 10
  nd6Destinations := 10
  nd6Prefixes := 5
  nd6Routers := 3
  nd6Pending := 4
  nd6MaxMulticastSolicit := 3
  nd6MaxUnicastSolicit := 3
  nd6ReachableRedrawMs := 7200000
  nd6ReachableTimeMs := 30000
  nd6RetransTimerMs := 1000
  nd6DelayFirstProbeMs := 5000
  tcpPcbs_le := by decide
  tcpListenPcbs_lt := by decide
  tcpSegs_lt := by decide
  tcpOoseqEntries_lt := by decide
  netifCount_lt := by decide
  rxDescriptors_le := by decide
  maxPinnedFrames_lt := by decide
  dmaFrameMax_le := by decide
  arpEntries_lt := by decide
  arpPending_lt := by decide
  ip4ReassDatagrams_lt := by decide
  ip4ReassFrags_lt := by decide
  ip4ReassHoles_lt := by decide
  ip4ReassHoles_ge := by decide
  ip6ReassDatagrams_lt := by decide
  ip6ReassFrags_lt := by decide
  ip6ReassHoles_lt := by decide
  ip6ReassHoles_ge := by decide
  timeouts_le := by decide
  icmp4ErrBucket_pos := by decide
  icmp4ErrBucket_lt := by decide
  icmp4ErrTokenMs_pos := by decide
  icmp4ErrBucketMs_lt := by decide
  icmp6ErrBucket_pos := by decide
  icmp6ErrBucket_lt := by decide
  icmp6ErrTokenMs_pos := by decide
  icmp6ErrBucketMs_lt := by decide
  udpPcbs_le := by decide
  dnsServers_pow := by decide
  dnsNameBytes_ge := by decide
  nd6Neighbors_lt := by decide
  nd6Destinations_lt := by decide
  nd6Prefixes_lt := by decide
  nd6Routers_lt := by decide
  nd6Pending_lt := by decide
  nd6MaxMulticastSolicit_eq := by decide
  nd6RetransTimerMs_le := by decide

/-- RFC 9293 sec 3.3.2's states, `IdemIpTcpState`. -/
inductive TcpState
  | closed | listen | synSent | synReceived | established | finWait1 | finWait2 | closeWait | closing
  | lastAck | timeWait
deriving DecidableEq

/-- Position of a state in the enumeration, which the range tests compare. -/
def TcpState.rank : TcpState → ℕ
  | closed => 0
  | listen => 1
  | synSent => 2
  | synReceived => 3
  | established => 4
  | finWait1 => 5
  | finWait2 => 6
  | closeWait => 7
  | closing => 8
  | lastAck => 9
  | timeWait => 10

/-- RFC 9293 sec 3.3.2's synchronized states, ESTABLISHED and every later one. -/
def TcpState.synchronized (s : TcpState) : Bool := 4 ≤ s.rank

/-- Send and receive variables of a connection, `IdemIpTcpVars`. -/
structure TcpVars where
  (sndUna sndNxt sndWnd sndUp : BitVec 32)
  /-- SND.WL1, number of the segment that last updated the window. -/
  (sndWl1 sndWl2 iss rcvNxt rcvWnd rcvUp irs : BitVec 32)
deriving DecidableEq

/-- Every variable zeroed, as a `memset` leaves them. -/
def TcpVars.zero : TcpVars := ⟨0,0,0,0,0,0,0,0,0,0,0⟩

/-- Control fields beside the variables, `TcpPcbCtl`. -/
structure TcpPcbCtl where
  (srtt rttvar rto rtseq rtxDeadline persistDeadline cwnd ssthresh : BitVec 32)
  /-- Octets acknowledged since the congestion window last grew. -/
  (bytesAcked maxSndWnd tsRecent : BitVec 32)
  /-- Last.ACK.sent, acknowledgment of the last segment sent. -/
  (lastAckSent tsRecentMs lastSendMs keepIdleMs keepIntvlMs timeWaitDeadline : BitVec 32)
  /-- Left edges of the selective acknowledgment blocks. -/
  (sackLeft sackRight : Vector (BitVec 32) 4)
  rcvAnnWnd : BitVec 32
  mss : BitVec 16
  /-- `IDEMIP_TCP_CTL_*` bits. -/
  flags : BitVec 16
  /-- Keep-alives before the connection is given up. -/
  (keepCnt sndScale rcvScale nrtx r2 r2Syn backoff dupacks keepCntSent : BitVec 8)
deriving DecidableEq

/-- Every control field zeroed, as a `memset` leaves them. -/
def TcpPcbCtl.zero : TcpPcbCtl :=
  ⟨0,0,0,0,0,0,0,0,0,0,0,0,0,0,0,0,0,.replicate 4 0,.replicate 4 0,0,0,0,0,0,0,0,0,0,0,0,0⟩

/-- `IDEMIP_TCP_CTL_TS_OK`, timestamps are on. -/
def ctlTsOk : BitVec 16 := 2

/-- `IDEMIP_TCP_URG`. -/
def tcpUrg : BitVec 8 := 0x20

/-- `IDEMIP_TCP_ACK`. -/
def tcpAck : BitVec 8 := 0x10

/-- `IDEMIP_TCP_PSH`. -/
def tcpPsh : BitVec 8 := 0x08

/-- `IDEMIP_TCP_RST`. -/
def tcpRst : BitVec 8 := 0x04

/-- `IDEMIP_TCP_SYN`. -/
def tcpSyn : BitVec 8 := 0x02

/-- `IDEMIP_TCP_FIN`. -/
def tcpFin : BitVec 8 := 0x01

/-- The mask test `(x & m) != 0` of the sources. -/
def hasBit {w : ℕ} (x m : BitVec w) : Bool := (x &&& m)!=0

end IdemIp
