import IdemIp.Dma
import IdemIp.TcpIn
import IdemIp.TcpPcb
import IdemIp.ArpTable
import IdemIp.Ip4Reass
import IdemIp.Ip6Reass
import IdemIp.Ip6Frag

/-!
# The receive path, `dispatch.c`

The operand block, the rows per interface and per connection, and the path from the
frame to the transport in the order the source takes it. Units it only asks are
questions an `Env` answers, and so are the transports other than TCP. Whether a
frame reaches its transport is a function of the frame and the state.
-/

namespace IdemIp.Dispatch

section Tcp

open Function

/-- Why a frame went no further, `IdemIpDispatchDrop`. -/
inductive Drop
  | none | short | vlanPolicy | vlanReserved | ethertype | ipHeader | ipAddress | ipSource | ipProto
  | ip6Routing | ip6Option | ip6FragNd | noPcb | reass | noDesc | unbound | cksum
deriving DecidableEq

/-- Which table a delivery's index belongs to, `IdemIpDispatchPcb`. -/
inductive PcbKind
  | none | raw | udp | tcp | listen | icmp | group | arp | nd
deriving DecidableEq

/-- The `IDEMIP_DISPATCH_ACT_*` bits, one flag each. -/
structure Act where
  send : Bool
  /-- The payload goes to the connection or binding named. -/
  (deliver pinned reassembled forward user drop : Bool)
  /-- `tcpAct` carries a decision. -/
  (tcp ackOwed : Bool)
deriving DecidableEq

def Act.none : Act := ⟨false,false,false,false,false,false,false,false,false⟩

/-- The interface index that names none, `IDEMIP_DISPATCH_NETIF_NONE`. -/
def netifNone : ℕ := 0xFF

/-- The descriptor that names none, `IDEMIP_DISPATCH_DESC_NONE`. -/
def descNone : ℕ := 0xFFFF

/-- The VLAN that names none, `IDEMIP_DISPATCH_VID_NONE`. -/
def vidNone : BitVec 16 := 0xFFF

/-- A descriptor with its ring, `IDEMIP_DISPATCH_DESC_HANDLE`. -/
def descHandle (netif index : ℕ) : ℕ := (netif<<<8 ||| index)%2^16

/-- The ring of a handle, `IDEMIP_DISPATCH_DESC_NETIF`. -/
def handleNetif (handle : ℕ) : ℕ := handle/2^8%2^8

/-- The index of a handle, `IDEMIP_DISPATCH_DESC_INDEX`. -/
def handleIndex (handle : ℕ) : ℕ := handle%2^8

/-- Result members of the operand block, `DispatchIo`. -/
structure Io where
  status : Status
  act : Act
  drop : Drop
  /-- Table of `pcb`. -/
  pcbKind : PcbKind
  pcb : ℕ
  (type vid lastVid : BitVec 16)
  pcp : BitVec 8
  tagged : Bool
  (ipOff payloadOff payloadLen outLen ipVersion : ℕ)
  proto : BitVec 8
  (datagram netif desc : ℕ)
  /-- Octets from the IP header to the field a drop points at. -/
  errPtr : ℕ
  tcpAct : TcpIn.Act
  (textSeq acked : BitVec 32)
  /-- Octets from the frame to the first octet delivered. -/
  (textOff textLen : BitVec 16)
  reply : TcpIn.Reply
deriving DecidableEq

/-- The results before a call decides anything, `d_reset`; the outcome stays as it is. -/
def Io.reset (io : Io) : Io :=
  ⟨io.status,.none,.none,.none,0,0,vidNone,vidNone,0,false,0,0,0,0,0,0,0,netifNone,descNone,0,TcpIn.Act.none,0,0,0,0,⟨0,0,0⟩⟩

/-- A frame that goes no further, `d_drop` without its counter. -/
def Io.dropped (io : Io) (why : Drop) : Io := {io with drop := why,act := {io.act with drop := true}}

/-- One interface, `DispatchIfRow`. -/
structure IfRow where
  dma : Bool
  (vid lastVid : BitVec 16)
  /-- It is a member of one VLAN. -/
  tagged : Bool

/-- One connection, `DispatchPcbRow`. -/
structure PcbRow where
  ackOwed : Bool
  /-- Interface its last segment came in on. -/
  netif : ℕ

/-- Operands of a dispatch, `DispatchInputArgs`. -/
structure InputArgs where
  frame : Option Octets
  len : ℕ
  /-- Room for a reply, null when there is none. -/
  out : Option ℕ
  (nowMs rand : BitVec 32)
  (desc netif : ℕ)

/-- The dispatcher with the units of its TCP path. -/
structure Side where
  /-- Whether `clear` has marked it. -/
  (ready tcpPcbBound tcpInBound : Bool)
  /-- Descriptor of the last re-delivery, unpinned on the next. -/
  (holdDesc holdNetif : ℕ)
  ifRow : ℕ → IfRow
  pcbRow : ℕ → PcbRow
  io : Io
  tcpPcb : TcpPcb.Work
  /-- Random word the last bind left in their operand block. -/
  bindRand : BitVec 32
  tcpIn : TcpIn.Work
  ring : ℕ → Dma.Ring

section Path

variable (cfg : Config) (s : Side) (a : InputArgs) (pcb : ℕ)

/-- Pin a descriptor, `d_pin`; true when it may be retained. -/
def dPin (netif desc : ℕ) : Side×Bool :=
  if cfg.netifCount≤netif ∨ desc=descNone then (s,false)
  else if !(s.ifRow netif).dma then (s,true)
  else
    let r := Dma.pin cfg (s.ring netif) (desc%2^8)
    ({s with ring := update s.ring netif r.1},r.2==.ok)

/-- Give a descriptor back, `d_unpin`. -/
def dUnpin (netif desc : ℕ) : Side :=
  if cfg.netifCount≤netif ∨ desc=descNone then s
  else if !(s.ifRow netif).dma then s
  else {s with ring := update s.ring netif (Dma.unpin cfg (s.ring netif) (desc%2^8)).1}

def Side.drop (why : Drop) : Side := {s with io := s.io.dropped why}

/-- Copy the connection image into the segment machine, `d_tcp_load_in`. -/
def dTcpLoadIn (listener : ℕ) (nowMs : BitVec 32) : Side :=
  {s with tcpIn := {s.tcpIn with io := {s.tcpIn.io with
    vars := s.tcpPcb.io.vars
    ctl := s.tcpPcb.io.ctl
    state := s.tcpPcb.io.state
    listener := listener
    nowMs := nowMs}}}

/-- Copy the image back and store it, `d_tcp_store`. -/
def dTcpStore : Side :=
  let ti := s.tcpIn.io
  {s with tcpPcb := TcpPcb.store cfg (s.tcpPcb.image ti.vars ti.ctl ti.state) pcb}

/-- What is held of a segment, the operands of `oos_alloc`. -/
def holdArgs : TcpPcb.OosArgs where
  seq := s.tcpIn.io.res.textSeq
  pcb := pcb
  desc := descHandle s.io.netif a.desc
  offset := BitVec.ofNat 16 (s.io.payloadOff+s.tcpIn.io.res.textOff.toNat)
  len := s.tcpIn.io.res.textLen

/-- Hold a segment with its descriptor pinned, `d_tcp_hold`. -/
def dTcpHold : Side :=
  if s.tcpIn.io.res.textLen=0 ∨ a.desc=descNone then s
  else
    let p := dPin cfg s s.io.netif a.desc
    if !p.2 then p.1
    else
      let t := TcpPcb.oosAlloc cfg p.1.tcpPcb (holdArgs s a pcb)
      let u := {p.1 with tcpPcb := t}
      if t.io.status≠.ok then dUnpin cfg u s.io.netif a.desc
      else {u with
        io := {u.io with act := {u.io.act with pinned := true}}
        pcbRow := update u.pcbRow pcb {u.pcbRow pcb with netif := s.io.netif}}

/-- Report the reply, an ordinary acknowledgment as one owed, `d_tcp_reply`. -/
def dTcpReply : Side :=
  let act := s.tcpIn.io.res.act
  let io := {s.io with reply := s.tcpIn.io.reply,tcpAct := act}
  if !act.ack then {s with io := io}
  else if act.challenge || act.rst then {s with io := io}
  else
    let io := {io with tcpAct := {act with ack := false},act := {io.act with ackOwed := true}}
    if pcb < cfg.tcpPcbs then
      {s with io := io,pcbRow := update s.pcbRow pcb ⟨true,s.io.netif⟩}
    else {s with io := io}

/-- Answer a segment no connection or listener is there for, the CLOSED arm of `d_tcp`. -/
def dTcpClosed : Side :=
  let i := s.tcpIn.io
  let ti := TcpIn.closed {s.tcpIn with io := {i with
    vars := {i.vars with sndNxt := 0,rcvNxt := 0}
    state := .closed
    listener := noneIndex
    nowMs := a.nowMs}}
  let io := {s.io with
    pcbKind := .none
    tcpAct := ti.io.res.act
    reply := ti.io.reply
    act := {s.io.act with tcp := true}}
  {s with tcpIn := ti,io := io.dropped .noPcb}

/-- A SYN that gets no connection: the machine's decision is taken back. -/
def dTcpRefuse : Side :=
  let io := {s.io with pcbKind := .none,tcpAct := TcpIn.Act.none,act := {s.io.act with tcp := false}}
  {s with io := io.dropped .noPcb}

/-- Name the fresh connection after the segment's four-tuple; neither outcome is tested. -/
def nameTcb (localIp remoteIp : Octets) (localPort remotePort : BitVec 16) :
    TcpPcb.Work :=
  TcpPcb.connect cfg (TcpPcb.bind cfg s.tcpPcb ⟨some localIp,s.bindRand,pcb,localPort,0,s.io.netif⟩)
    ⟨some remoteIp,0,pcb,remotePort,0,s.io.netif⟩

/-- Make the connection a SYN asked for, behind `open` in the LISTEN arm of `d_tcp`. -/
def dTcpAccept (listener pcb : ℕ) (localIp remoteIp : Octets)
    (localPort remotePort : BitVec 16) : Side :=
  let t := TcpPcb.accept cfg (nameTcb cfg s pcb localIp remoteIp localPort remotePort) pcb listener
  if t.io.status≠.ok then dTcpRefuse {s with tcpPcb := TcpPcb.close cfg t pcb}
  else
    let u := {s with
      tcpPcb := t
      tcpIn := {s.tcpIn with io := {s.tcpIn.io with state := .synReceived}}}
    let u := dTcpStore cfg u pcb
    {u with io := {u.io with pcbKind := .tcp,pcb := pcb}}

/-- Run the LISTEN state against whatever image the tables' block holds. -/
def listenRun (listener : ℕ) : Side :=
  let u := dTcpLoadIn s listener a.nowMs
  let ti := TcpIn.listen {u.tcpIn with io := {u.tcpIn.io with state := .listen}}
  {u with
    tcpIn := ti
    io := {u.io with
      tcpAct := ti.io.res.act
      reply := ti.io.reply
      act := {u.io.act with tcp := true}}}

/-- A segment for a listener, the LISTEN arm of `d_tcp`. -/
def dTcpListen (listener : ℕ) (localIp remoteIp : Octets)
    (localPort remotePort : BitVec 16) (ipVersion : ℕ) : Side :=
  let u := listenRun s a listener
  if u.tcpIn.io.state≠.synReceived then {u with io := {u.io with pcbKind := .none}.dropped .noPcb}
  else
    let t := TcpPcb.openTcb cfg u.tcpPcb ipVersion
    if t.io.status≠.ok then dTcpRefuse {u with tcpPcb := t}
    else dTcpAccept cfg {u with tcpPcb := t} listener t.io.index localIp remoteIp localPort remotePort

/-- The entry of the segment machine a connection's state selects. -/
def runIn (w : TcpIn.Work) : TcpIn.Work :=
  if w.io.state=.synSent then TcpIn.synSent cfg w
  else if w.io.state=.closed then TcpIn.closed w
  else TcpIn.segment cfg w

/-- Report the machine's decision on a connection. -/
def reportIn : Side :=
  let res := s.tcpIn.io.res
  {s with io := {s.io with
    pcbKind := .tcp
    pcb := pcb
    act := {s.io.act with tcp := true}
    acked := res.acked
    textSeq := res.textSeq
    textOff := res.textOff
    textLen := res.textLen}}

/-- Hold or deliver the text, as the machine decided. -/
def placeText : Side :=
  let u := if s.tcpIn.io.res.act.hold then dTcpHold cfg s a pcb else s
  if u.tcpIn.io.res.act.text then {u with io := {u.io with act := {u.io.act with deliver := true}}} else u

/-- A segment for a connection that was loaded, the last arm of `d_tcp`. -/
def dTcpSegment : Side :=
  let u := dTcpLoadIn s s.tcpPcb.io.info.listener a.nowMs
  let u := {u with tcpIn := runIn cfg u.tcpIn}
  dTcpReply cfg (dTcpStore cfg (placeText cfg (reportIn u pcb) a pcb) pcb) pcb

/-- The four-tuple of a segment. -/
def findArgs (seg localIp remoteIp : Octets) (ipVersion : ℕ) : TcpPcb.FindArgs :=
  ⟨some localIp,some remoteIp,(TcpIn.header seg).dstPort,(TcpIn.header seg).srcPort,ipVersion,0,0,s.io.netif⟩

/-- The parse of a segment. -/
def parseArgs (seg localIp remoteIp : Octets) (ipVersion : ℕ) (sndScale : BitVec 8) :
    TcpIn.ParseArgs :=
  ⟨some seg,some localIp,some remoteIp,BitVec.ofNat 16 s.io.payloadLen,ipVersion,sndScale⟩

/-- A segment whose connection was found. -/
def dTcpKnown (seg localIp remoteIp : Octets) (ipVersion : ℕ) : Side :=
  let t := TcpPcb.load cfg s.tcpPcb pcb
  if t.io.status≠.ok then {s with tcpPcb := t}.drop .noPcb
  else
    let ti := TcpIn.parse s.tcpIn (parseArgs s seg localIp remoteIp ipVersion t.io.ctl.sndScale)
    let u := {s with tcpPcb := t,tcpIn := ti}
    if ti.io.status≠.ok then u.drop .short else dTcpSegment cfg u a pcb

/-- A segment no connection was found for. -/
def dTcpUnknown (listener : Option ℕ) (seg localIp remoteIp : Octets)
    (ipVersion : ℕ) : Side :=
  let ti := TcpIn.parse s.tcpIn (parseArgs s seg localIp remoteIp ipVersion 0)
  let u := {s with tcpIn := ti}
  if ti.io.status≠.ok then u.drop .short
  else match listener with
    | none => dTcpClosed u a
    | some l =>
      dTcpListen cfg u a l localIp remoteIp (TcpIn.header seg).dstPort (TcpIn.header seg).srcPort ipVersion

/-- One segment, `d_tcp`. -/
def dTcp (frame localIp remoteIp : Octets) (ipVersion : ℕ) : Side :=
  let seg := frame.drop s.io.payloadOff
  if !s.tcpPcbBound || !s.tcpInBound then s.drop .unbound
  else if s.io.payloadLen<20 then s.drop .short
  else
    let t := TcpPcb.find cfg s.tcpPcb (findArgs s seg localIp remoteIp ipVersion)
    if t.io.status=.ok then dTcpKnown cfg {s with tcpPcb := t} a t.io.index seg localIp remoteIp ipVersion
    else
      let t := TcpPcb.findListener cfg t (findArgs s seg localIp remoteIp ipVersion)
      let listener := if t.io.status=.ok then some t.io.index else none
      dTcpUnknown cfg {s with tcpPcb := t} a listener seg localIp remoteIp ipVersion

/-- Whether the first held segment begins above RCV.NXT. -/
def aheadOf (seq rcvNxt : BitVec 32) : Bool := seq-rcvNxt != 0 && seq-rcvNxt<0x80000000

/-- Deliver what is new of a held segment and advance RCV.NXT over it. -/
def deliverHeld (held : TcpPcb.Oos) (rcvNxt : BitVec 32) : Side :=
  let skip := rcvNxt-held.seq
  let io := {s.io with desc := held.desc,textSeq := rcvNxt}
  if skip<held.len.setWidth 32 then
    let textLen := (held.len.setWidth 32-skip).setWidth 16
    let tp := s.tcpPcb
    let vars := {tp.io.vars with rcvNxt := rcvNxt+textLen.setWidth 32}
    {s with
      tcpPcb := TcpPcb.store cfg (tp.image vars tp.io.ctl tp.io.state) pcb
      io := {io with
        textOff := (held.offset.setWidth 32+skip).setWidth 16
        textLen := textLen
        act := {io.act with deliver := true,tcp := true,ackOwed := true}}
      pcbRow := update s.pcbRow pcb {s.pcbRow pcb with ackOwed := true}}
  else {s with io := io}

/-- Free the held segment and keep its descriptor until the next call. -/
def releaseHeld (head : ℕ) (held : TcpPcb.Oos) : Side :=
  {s with
    tcpPcb := TcpPcb.oosFree cfg s.tcpPcb head
    holdDesc := held.desc
    holdNetif := s.io.netif
    io := {s.io with status := .ok}}

/-- The connection part of `tcp_deliver`, once the last re-delivery is unpinned. -/
def deliverFrom : Side :=
  let t := TcpPcb.load cfg s.tcpPcb pcb
  let u := {s with tcpPcb := t}
  if t.io.status≠.ok then u
  else
    let u := {u with io := {u.io with pcbKind := .tcp,pcb := pcb,netif := (u.pcbRow pcb).netif}}
    if t.io.info.ooseq=noneIndex then {u with io := {u.io with status := .busy}}
    else
      let head := t.io.info.ooseq
      let rcvNxt := t.io.vars.rcvNxt
      let t := TcpPcb.oosLoad cfg t head
      let u := {u with tcpPcb := t}
      if t.io.status≠.ok then u
      else if aheadOf t.io.oos.seq rcvNxt then {u with io := {u.io with status := .busy}}
      else releaseHeld cfg (deliverHeld cfg u pcb t.io.oos rcvNxt) head t.io.oos

/-- Deliver the first held segment RCV.NXT has reached, `idemip_dispatch_tcp_deliver`. -/
def tcpDeliver : Side :=
  let u := {s with io := {s.io.reset with status := .err}}
  if !s.ready then u
  else if !s.tcpPcbBound || cfg.tcpPcbs≤pcb then u
  else
    let v := dUnpin cfg u s.holdNetif s.holdDesc
    deliverFrom cfg {v with holdDesc := descNone,holdNetif := netifNone} pcb

/-- Take the acknowledgment of the first row that owes one, scanning rows `i..i+n`. -/
def ackScan (s : Side) : ℕ → ℕ → Side
  | 0,_ => s
  | n+1,i =>
    if !(s.pcbRow i).ackOwed then ackScan s n (i+1)
    else
      let row := s.pcbRow i
      let t := TcpPcb.load cfg s.tcpPcb i
      let u := {s with tcpPcb := t,pcbRow := update s.pcbRow i {row with ackOwed := false}}
      if t.io.status≠.ok then ackScan u n (i+1)
      else {u with io := {u.io with
        pcbKind := .tcp
        pcb := i
        netif := row.netif
        reply := ⟨t.io.vars.sndNxt,t.io.vars.rcvNxt,tcpAck⟩
        tcpAct := {TcpIn.Act.none with ack := true}
        act := {u.io.act with tcp := true}
        status := .ok}}

/-- Flush one owed acknowledgment, `idemip_dispatch_tcp_ack`. -/
def tcpAckFlush : Side :=
  let u := {s with io := {s.io.reset with status := .err}}
  if !s.ready then u
  else if !s.tcpPcbBound then u
  else ackScan cfg {u with io := {u.io with status := .busy}} cfg.tcpPcbs 0

end Path

end Tcp

section Network

/-- Which borrows are bound beside those of the TCP path. -/
structure Bound where
  (netif loopif vlan arp ip4Addr ip4Reass igmp ip6Addr ip6Reass mld6 : Bool)

/-- An interface's record, the members of `NetifIo` the path reads. -/
structure NetifRec where
  (addr mask : BitVec 32)
  (loopback hwaddr : Bool)

/-- Transports and messages other than TCP. -/
inductive Upper
  | icmp4 | igmp | udp | udplite | raw | icmp6
deriving DecidableEq

/-- Where a transport other than TCP delivers. -/
inductive UpperKind
  | none | raw | udp | icmp | group | nd
deriving DecidableEq

/-- The same as a table of the operand block. -/
def UpperKind.pcbKind : UpperKind → PcbKind
  | .none => .none
  | .raw => .raw
  | .udp => .udp
  | .icmp => .icmp
  | .group => .group
  | .nd => .nd

/-- What a transport other than TCP decides. -/
structure Answer where
  busy : Bool
  kind : UpperKind
  pcb : ℕ
  (deliver send user : Bool)
  drop : Drop
  outLen : ℕ

/-- What the units outside the model answer during one call. -/
structure Env where
  /-- `Netif.get`. -/
  get : ℕ → Option NetifRec
  /-- `Netif.find4`. -/
  find4 : BitVec 32 → Bool
  /-- `Netif.find_addr6` over assigned addresses. -/
  findAddr6 : Octets → Bool
  /-- `Netif.get_addr6`. -/
  getAddr6 : ℕ → ℕ → Option Octets
  /-- `Loopif.owns4`. -/
  owns4 : BitVec 32 → Bool
  /-- `Loopif.owns6`. -/
  owns6 : Octets → Bool
  /-- `Igmp.find`. -/
  igmpFind : BitVec 32 → ℕ → Bool
  /-- `Mld6.find`. -/
  mldFind : Octets → ℕ → Bool
  upper : Upper → Io → InputArgs → Answer

/-- The dispatcher with every unit it changes. -/
structure Stack where
  side : Side
  bound : Bound
  ip4Reass : Ip4Reass.Work
  ip6Reass : Ip6Reass.Work
  arp : ArpTable.Work

/-- Zero the rows and forget every borrow, `idemip_dispatch_clear`. -/
def clear (s : Stack) : Stack :=
  {s with
    side := {s.side with
      ready := true
      tcpPcbBound := false
      tcpInBound := false
      holdDesc := descNone
      holdNetif := netifNone
      ifRow := fun _ => ⟨false,0,vidNone,false⟩
      pcbRow := fun _ => ⟨false,0⟩
      io := {s.side.io with status := .ok}}
    bound := ⟨false,false,false,false,false,false,false,false,false,false⟩}

/-- Bind the units, `idemip_dispatch_bind`. -/
def bind (s : Stack) (b : Bound) (tcpPcb tcpIn : Bool) : Stack :=
  if !s.side.ready then {s with side := {s.side with io := {s.side.io with status := .err}}}
  else
    {s with
      side := {s.side with tcpPcbBound := tcpPcb,tcpInBound := tcpIn,io := {s.side.io with status := .ok}}
      bound := b}

def Stack.mapIo (s : Stack) (f : Io → Io) : Stack := {s with side := {s.side with io := f s.side.io}}

def Stack.drop (s : Stack) (why : Drop) : Stack := s.mapIo fun io => io.dropped why

/-- Where a destination belongs, `DispatchDest`. -/
inductive Dest
  | here | forward | drop
deriving DecidableEq

section Rules

variable (e : Env) (b : Bound)

/-- An interface's record, `d_netif_get`. -/
def netifGet (netif : ℕ) : Option NetifRec := if b.netif then e.get netif else none

/-- Whether an interface is the one no wire reaches, `d_on_loopback`. -/
def onLoopback (netif : ℕ) : Bool := ((netifGet e b netif).map NetifRec.loopback).getD false

/-- Limited broadcast, or the directed broadcast of a subnet, `idemip_ip4_addr_match`. -/
def isBroadcast (addr net mask : BitVec 32) : Bool :=
  addr==0xFFFFFFFF ||
    (mask != 0xFFFFFFFF && mask != 0xFFFFFFFE && (addr ^^^ net) &&& mask==0 && addr==(net &&& mask ||| ~~~mask))

/-- Whether an address is a broadcast by an interface's own mask. -/
def subnetBroadcast (netif : ℕ) (addr : BitVec 32) : Bool :=
  match netifGet e b netif with
  | none => false
  | some r => b.ip4Addr && r.mask != 0 && isBroadcast addr r.addr r.mask

/-- Where an IPv4 destination belongs, `d_ip4_dest`. -/
def dIp4Dest (netif : ℕ) (dst : BitVec 32) : Dest :=
  if ip4AddrType dst=.broadcast then .here
  else if ip4AddrIsMcast dst then
    if dst=0xE0000001 then .here
    else if b.igmp && e.igmpFind dst netif then .here else .drop
  else if b.loopif && onLoopback e b netif && e.owns4 dst then .here
  else if ip4AddrType dst=.loopback then .drop
  else if !b.netif then .drop
  else if e.find4 dst then .here
  else if subnetBroadcast e b netif dst then .here
  else .forward

/-- Whether an IPv4 source may not appear here, `d_ip4_src_invalid`. -/
def dIp4SrcInvalid (netif : ℕ) (src : BitVec 32) : Bool :=
  match ip4AddrType src with
  | .broadcast | .multicast => true
  | .loopback => !onLoopback e b netif
  | _ => subnetBroadcast e b netif src

/-- All-nodes in either scope, `idemip_ip6_addr_is_all_nodes`. -/
def isAllNodes (p : Octets) : Bool :=
  p 0==0xFF && p 1>>>4==0 && (p 1 &&& 0x0F==1 || p 1 &&& 0x0F==2) && (p.drop 2).bytesZero 13 && p 15==1

/-- Whether a group is the solicited-node group of an address, by `idemip_ip6_addr_solicited`. -/
def isSolicited (dst addr : Octets) : Bool :=
  ip6AddrType addr != .multicast && ip6AddrType addr != .unspecified &&
    (Octets.ofList [0xFF,2,0,0,0,0,0,0,0,0,0,1,0xFF,addr 13,addr 14,addr 15]).bytesEq dst 16

/-- Where an IPv6 destination belongs, `d_ip6_dest`. -/
def dIp6Dest (addresses netif : ℕ) (dst : Octets) : Dest :=
  if b.netif && e.findAddr6 dst then .here
  else if b.loopif && onLoopback e b netif && e.owns6 dst then .here
  else if ip6AddrType dst=.loopback then .drop
  else if ip6AddrType dst≠.multicast then .forward
  else if isAllNodes dst then .here
  else if b.mld6 && e.mldFind dst netif then .here
  else if !b.ip6Addr || !b.netif then .drop
  else if (List.range addresses).any fun slot => ((e.getAddr6 netif slot).map (isSolicited dst)).getD false then .here
  else .drop

end Rules

section Path

variable (cfg : Config) (e : Env) (io : Io) (s : Stack) (a : InputArgs)

/-- Report what a transport other than TCP decided. -/
def Io.answered (r : Answer) : Io :=
  {io with
    status := if r.busy then .busy else io.status
    pcbKind := r.kind.pcbKind
    pcb := r.pcb
    drop := r.drop
    outLen := r.outLen
    act := {io.act with
      deliver := r.deliver
      send := r.send
      user := r.user
      drop := r.drop != .none}}

/-- Hand the payload to a transport other than TCP. -/
def dUpper (u : Upper) : Stack := s.mapIo fun io => io.answered (e.upper u io a)

/-- Hand the payload to TCP. -/
def dStackTcp (frame localIp remoteIp : Octets) (ipVersion : ℕ) : Stack :=
  {s with side := dTcp cfg s.side a frame localIp remoteIp ipVersion}

def Io.payload (proto : BitVec 8) (off len : ℕ) : Io :=
  {io with proto := proto,payloadOff := io.ipOff+off,payloadLen := len}

/-- Hand an IPv4 payload to its protocol, `d_ip4_proto`. -/
def dIp4Proto (frame ip4 : Octets) : Stack :=
  let hdr := Ip4.hdrLen ip4
  let s := s.mapIo fun io => io.payload (Ip4.proto ip4) hdr (Ip4.totalLen ip4-hdr)
  if Ip4.proto ip4=1 then dUpper e s a .icmp4
  else if Ip4.proto ip4=2 then dUpper e s a .igmp
  else if Ip4.proto ip4=17 then dUpper e s a .udp
  else if Ip4.proto ip4=136 then dUpper e s a .udplite
  else if Ip4.proto ip4=6 then dStackTcp cfg s a frame (ip4.drop 16) (ip4.drop 12) 4
  else dUpper e s a .raw

def Io.retained (datagram : ℕ) (complete : Bool) : Io :=
  {io with
    datagram := datagram
    act := {io.act with pinned := true,reassembled := io.act.reassembled || complete}}

/-- The handle of the frame at hand. -/
def Stack.handle : ℕ := descHandle s.side.io.netif a.desc

/-- Hold an IPv4 fragment with its descriptor pinned, `d_ip4_frag`. -/
def dIp4Frag (ip4 : Octets) : Stack :=
  if !s.bound.ip4Reass then s.drop .unbound
  else
    let p := dPin cfg s.side s.side.io.netif a.desc
    let s := {s with side := p.1}
    if !p.2 then s.drop .noDesc
    else
      let re := Ip4Reass.hold cfg s.ip4Reass ⟨ip4,s.handle a,Ip4.totalLen ip4%2^16,a.nowMs⟩
      let s := {s with ip4Reass := re}
      if re.io.status≠.ok then {s with side := dUnpin cfg s.side s.side.io.netif a.desc}.drop .reass
      else s.mapIo fun io => io.retained re.io.index re.io.complete

/-- One IPv4 datagram, `d_ip4`. -/
def dIp4 (frame ip4 : Octets) (avail : ℕ) : Stack :=
  let s := s.mapIo fun io => {io with ipVersion := 4}
  if !Ip4.verify ip4 avail then s.drop .ipHeader
  else if dIp4SrcInvalid e s.bound s.side.io.netif (Ip4.src ip4) then s.drop .ipSource
  else match dIp4Dest e s.bound s.side.io.netif (Ip4.dst ip4) with
    | .forward => s.mapIo fun io => {io with act := {io.act with forward := true}}
    | .drop => s.drop .ipAddress
    | .here => if Ip4.isFragment ip4 then dIp4Frag cfg s a ip4 else dIp4Proto cfg e s a frame ip4

/-- Report the reply an ARP packet is owed: sixty octets, or busy without room for them. -/
def arpReply (r : NetifRec) : Stack :=
  if !s.arp.io.replyOwed || !r.hwaddr then s
  else if (a.out.map fun cap => decide (cap<60)).getD true then s.mapIo fun io => {io with status := .busy}
  else s.mapIo fun io => {io with outLen := 60,act := {io.act with send := true}}

/-- One ARP packet, `d_arp`. -/
def dArp (packet : Octets) (avail : ℕ) : Stack :=
  let s := s.mapIo fun io => {io with pcbKind := .arp}
  if !s.bound.arp then s.drop .unbound
  else if avail<28 then s.drop .short
  else match netifGet e s.bound s.side.io.netif with
    | none => s.drop .unbound
    | some r =>
      let s := {s with arp := ArpTable.input cfg s.arp ⟨packet,r.addr,s.side.io.netif,a.nowMs⟩}
      if s.arp.io.status≠.ok then s.drop .noPcb
      else arpReply (s.mapIo fun io => {io with act := {io.act with deliver := true}}) a r

/-- Hold an IPv6 fragment with its descriptor pinned, `d_ip6_frag`. -/
def dIp6Frag (ip6 : Octets) (totalLen fragHdr : ℕ) : Stack :=
  if !s.bound.ip6Reass then s.drop .unbound
  else
    let p := dPin cfg s.side s.side.io.netif a.desc
    let s := {s with side := p.1}
    if !p.2 then s.drop .noDesc
    else
      let re := Ip6Reass.input cfg s.ip6Reass ⟨ip6,totalLen,fragHdr,s.handle a,a.nowMs⟩
      let s := {s with ip6Reass := re}
      if re.io.status≠.ok then {s with side := dUnpin cfg s.side s.side.io.netif a.desc}.drop .reass
      else s.mapIo fun io => io.retained re.io.datagram re.io.complete

/-- Hand an IPv6 payload to its protocol. -/
def dIp6Proto (frame ip6 : Octets) (totalLen : ℕ) (c : Ip6.Chain) : Stack :=
  let s := s.mapIo fun io => io.payload c.nextHdr c.offset (totalLen-c.offset)
  if c.nextHdr=58 then dUpper e s a .icmp6
  else if c.nextHdr=17 then dUpper e s a .udp
  else if c.nextHdr=136 then dUpper e s a .udplite
  else if c.nextHdr=6 then dStackTcp cfg s a frame (ip6.drop 24) (ip6.drop 8) 6
  else dUpper e (s.mapIo fun io => {io with errPtr := c.nextHdrOff%2^16}) a .raw

/-- Whether a first fragment carries a Neighbor Discovery message. -/
def fragNd (ip6 : Octets) (totalLen : ℕ) (c : Ip6.Chain) : Bool :=
  c.nextHdr==58 && Ip6.fragOffsetBytes (ip6.drop c.fragHdr)==0 && decide (c.offset<totalLen) &&
    decide (133 ≤ ip6 c.offset ∧ ip6 c.offset≤137)

/-- One IPv6 packet whose chain was walked and whose destination is here. -/
def dIp6Here (frame ip6 : Octets) (totalLen : ℕ) (c : Ip6.Chain) : Stack :=
  if c.routed then (s.mapIo fun io => {io with errPtr := (c.routingHdr+2)%2^16}).drop .ip6Routing
  else if c.refused then (s.mapIo fun io => {io with errPtr := c.optHdr%2^16}).drop .ip6Option
  else if c.fragmented then
    if fragNd ip6 totalLen c then s.drop .ip6FragNd else dIp6Frag cfg s a ip6 totalLen c.fragHdr
  else dIp6Proto cfg e s a frame ip6 totalLen c

/-- One IPv6 packet, `d_ip6`. -/
def dIp6 (frame ip6 : Octets) (avail : ℕ) : Stack :=
  let s := s.mapIo fun io => {io with ipVersion := 6}
  let totalLen := 40+Ip6.payloadLen ip6
  if avail<40 then s.drop .ipHeader
  else if Ip6.version ip6≠6 then s.drop .ipHeader
  else if avail<totalLen then s.drop .ipHeader
  else if !(Ip6.walk ip6 totalLen).ok then s.drop .ipHeader
  else match dIp6Dest e s.bound cfg.ip6Addresses s.side.io.netif (ip6.drop 24) with
    | .forward => s.mapIo fun io => {io with act := {io.act with forward := true}}
    | .drop => s.drop .ipAddress
    | .here => dIp6Here cfg e s a frame ip6 totalLen (Ip6.walk ip6 totalLen)

/-- Name the link header's fields; the VLAN only of a tagged frame. -/
def Io.linked (v : Vlan.Parsed) : Io :=
  {io with
    type := v.type
    tagged := v.tagged
    pcp := v.pcp
    vid := if v.tagged then v.vid else io.vid}

/-- Discard a frame of a VLAN the interface is no member of, and record which. -/
def dropVlan (netif : ℕ) (vid : BitVec 16) : Stack :=
  let row := {s.side.ifRow netif with lastVid := vid}
  let s := {s with side := {s.side with ifRow := Function.update s.side.ifRow netif row}}
  (s.mapIo fun io => {io with lastVid := vid}).drop .vlanPolicy

/-- The link header, `d_link`; the octets to the payload when the frame goes on. -/
def dLink (frame : Octets) : Stack×Option ℕ :=
  if a.len<14 then (s.drop .short,none)
  else if !s.bound.vlan then (s.drop .unbound,none)
  else match Vlan.parse frame a.len with
    | none => (s.drop (if (frame.drop 12).rd16≤1500 then .ethertype else .short),none)
    | some v =>
      let s := s.mapIo fun io => io.linked v
      let row := s.side.ifRow s.side.io.netif
      if !v.tagged then (s,some v.payloadOff)
      else if v.vid=Vlan.vidReserved then (s.drop .vlanReserved,none)
      else if !row.tagged || v.vid==row.vid then (s,some v.payloadOff)
      else (dropVlan s s.side.io.netif v.vid,none)

/-- The packet behind the link header, by its type code. -/
def dNetwork (frame : Octets) (off : ℕ) : Stack :=
  let s := s.mapIo fun io => {io with ipOff := off}
  if s.side.io.type=0x0800 then dIp4 cfg e s a frame (frame.drop off) (a.len-off)
  else if s.side.io.type=0x0806 then dArp cfg e s a (frame.drop off) (a.len-off)
  else if s.side.io.type=0x86DD then dIp6 cfg e s a frame (frame.drop off) (a.len-off)
  else s.drop .ethertype

/-- One frame, `idemip_dispatch_input`. -/
def input : Stack :=
  let s := s.mapIo fun io => {io.reset with status := .err}
  match a.frame with
  | none => s
  | some frame =>
    if !s.side.ready || a.len==0 || decide (cfg.netifCount≤a.netif) then s
    else
      let s := s.mapIo fun io => {io with netif := a.netif,desc := a.desc,status := .ok}
      let l := dLink s a frame
      match l.2 with
      | none => l.1
      | some off => dNetwork cfg e l.1 a frame off

end Path

/-- A segment as the TCP path is handed it. -/
structure Arrival where
  io : Io
  (frame lip rip : Octets)
  ipVersion : ℕ

/-- First octet of the TCP header. -/
def Arrival.seg (r : Arrival) : Octets := r.frame.drop r.io.payloadOff

/-- The packet a payload came in, by the family that carries it. -/
def arrivalAt (frame : Octets) (io : Io) : Arrival :=
  let ip := frame.drop io.ipOff
  if io.ipVersion=6 then ⟨io,frame,ip.drop 24,ip.drop 8,6⟩ else ⟨io,frame,ip.drop 16,ip.drop 12,4⟩

section Payload

variable (cfg : Config) (e : Env) (s : Stack) (a : InputArgs)

/-- The operand block an IPv4 payload is handed to its protocol with, if the datagram gets that far. -/
def payload4 (ip4 : Octets) (avail : ℕ) : Option Io :=
  if !Ip4.verify ip4 avail || dIp4SrcInvalid e s.bound s.side.io.netif (Ip4.src ip4) then none
  else if dIp4Dest e s.bound s.side.io.netif (Ip4.dst ip4)≠.here ∨ Ip4.isFragment ip4 then none
  else some ({s.side.io with ipVersion := 4}.payload (Ip4.proto ip4) (Ip4.hdrLen ip4) (Ip4.totalLen ip4-Ip4.hdrLen ip4))

/-- Whether an IPv6 packet's header and chain are in order. -/
def chainOk (ip6 : Octets) (avail : ℕ) : Bool :=
  40≤avail && Ip6.version ip6==6 && 40+Ip6.payloadLen ip6≤avail && (Ip6.walk ip6 (40+Ip6.payloadLen ip6)).ok

/-- The same of an IPv6 payload. -/
def payload6 (ip6 : Octets) (avail : ℕ) : Option Io :=
  let totalLen := 40+Ip6.payloadLen ip6
  let c := Ip6.walk ip6 totalLen
  if !chainOk ip6 avail then none
  else if dIp6Dest e s.bound cfg.ip6Addresses s.side.io.netif (ip6.drop 24)≠.here then none
  else if c.routed || c.refused || c.fragmented then none
  else some ({s.side.io with ipVersion := 6}.payload c.nextHdr c.offset (totalLen-c.offset))

/-- The stack as a call that is in order begins with it. -/
def entered : Stack :=
  s.mapIo fun io => {io.reset with status := .ok,netif := a.netif,desc := a.desc}

/-- The payload of a packet behind the link header. -/
def payloadNet (frame : Octets) (off : ℕ) : Option Io :=
  let s := s.mapIo fun io => {io with ipOff := off}
  if s.side.io.type=0x0800 then payload4 e s (frame.drop off) (a.len-off)
  else if s.side.io.type=0x86DD then payload6 cfg e s (frame.drop off) (a.len-off)
  else none

/-- The payload of a frame. -/
def payloadOf : Option Io :=
  match a.frame with
  | none => none
  | some frame =>
    if !s.side.ready || a.len==0 || decide (cfg.netifCount≤a.netif) then none
    else match (dLink (entered s a) a frame).2 with
      | none => none
      | some off => payloadNet cfg e (dLink (entered s a) a frame).1 a frame off

/-- The segment `input` hands to TCP, if it does. -/
def arrival : Option Arrival :=
  ((payloadOf cfg e s a).filter fun io => io.proto==6).map (arrivalAt (a.frame.getD .zero))

end Payload

/-- A report that names no connection. -/
def Io.Unnamed (io : Io) : Prop := io.pcbKind≠.tcp ∧ io.act.tcp=false

/-- A report that names neither a connection nor a completed packet. -/
def Io.Blank (io : Io) : Prop := io.Unnamed ∧ io.act.reassembled=false

/-- Whether a call delivers, or builds, reports or owes a reply. -/
def Io.loud (io : Io) : Bool := io.act.deliver || io.act.send || io.act.ackOwed || io.tcpAct.ack || io.tcpAct.rst

/-- Whether a frame carries ARP. -/
def ArpFrame (a : InputArgs) : Prop := ∃ fr v,a.frame=some fr ∧ Vlan.parse fr a.len=some v ∧ v.type=0x0806

/-- A report on a frame no protocol got: it names no UDP binding, and only ARP makes it loud. -/
def Io.Still (a : InputArgs) (io : Io) : Prop := io.pcbKind≠.udp ∧ (ArpFrame a ∨ io.loud=false)

/-- Change the operand block for another. -/
def Stack.withIo (s : Stack) (io : Io) : Stack := s.mapIo fun _ => io

/-- The segment in the hands of TCP. -/
def handed (cfg : Config) (s : Stack) (a : InputArgs) (r : Arrival) : Stack :=
  dStackTcp cfg (s.withIo r.io) a r.frame r.lip r.rip r.ipVersion

/-- The protocol beside TCP a payload belongs to. -/
def upperOf (ipVersion : ℕ) (proto : BitVec 8) : Upper :=
  if ipVersion=6 ∧ proto=58 then .icmp6
  else if ipVersion≠6 ∧ proto=1 then .icmp4
  else if ipVersion≠6 ∧ proto=2 then .igmp
  else if proto=17 then .udp
  else if proto=136 then .udplite
  else .raw

/-- A payload in the hands of its protocol. -/
def passed (cfg : Config) (e : Env) (s : Stack) (a : InputArgs) (frame : Octets) (io : Io) : Stack :=
  if io.proto=6 then handed cfg s a (arrivalAt frame io) else dUpper e (s.withIo io) a (upperOf io.ipVersion io.proto)

/-- Whether an IPv6 fragment's chain is in order and leads to no Neighbor Discovery message. -/
def screened (ip6 : Octets) : Bool :=
  let totalLen := 40+Ip6.payloadLen ip6
  (Ip6.walk ip6 totalLen).ok && !fragNd ip6 totalLen (Ip6.walk ip6 totalLen)

/-- Every way a call can end without a protocol, from the stack and interface it runs on. -/
inductive Off (cfg : Config) (s : Stack) (netif : ℕ) (a : InputArgs) : Stack → Prop
  /-- Reports alone change, and the VLAN an interface last discarded. -/
  | ends (io : Io) (ifRow : ℕ → IfRow) (hio : io.Blank)
    (hrow : ∀ n,∃ vid,ifRow n={s.side.ifRow n with lastVid := vid}) :
    Off cfg s netif a {s with side := {s.side with io := io,ifRow := ifRow}}
  | arp (io : Io) (hio : io.Blank) (x : ArpTable.InputArgs) :
    Off cfg s netif a {s.withIo io with arp := ArpTable.input cfg s.arp x}
  | frag4 (io : Io) (hio : io.Blank) (h4 : io.ipVersion=4) (hn : io.netif=netif) (ip4 : Octets) :
    Off cfg s netif a (dIp4Frag cfg (s.withIo io) a ip4)
  | frag6 (io : Io) (hio : io.Blank) (hn : io.netif=netif) (fr ip6 : Octets) (hfr : a.frame=some fr)
    (hip : ip6=fr.drop io.ipOff) (hs : screened ip6) : Off cfg s netif a (dIp6Frag cfg (s.withIo io) a ip6
      (40+Ip6.payloadLen ip6) (Ip6.walk ip6 (40+Ip6.payloadLen ip6)).fragHdr)

section Pins

variable (cfg : Config) (s : Side) (netif desc : ℕ)

theorem dPin_eq : (dPin cfg s netif desc).1={s with ring := (dPin cfg s netif desc).1.ring} := by
  unfold dPin
  split_ifs <;> rfl

theorem dUnpin_eq : dUnpin cfg s netif desc={s with ring := (dUnpin cfg s netif desc).ring} := by
  unfold dUnpin
  split_ifs <;> rfl

end Pins

@[simp] theorem Stack.mapIo_bound (s : Stack) (f : Io → Io) : (s.mapIo f).bound=s.bound := rfl

@[simp] theorem Stack.mapIo_io (s : Stack) (f : Io → Io) : (s.mapIo f).side.io=f s.side.io := rfl

variable {fr ip4 ip6 : Octets} {totalLen : ℕ}

section Route

variable {cfg : Config} {e : Env} {s u : Stack} {netif : ℕ} {a : InputArgs}

theorem Off.io (f : Io → Io) (hio : (f s.side.io).Blank) : Off cfg s netif a (s.mapIo f) :=
  Off.ends (f s.side.io) s.side.ifRow hio fun n => ⟨(s.side.ifRow n).lastVid,rfl⟩

theorem Off.of_mapIo {f : Io → Io} (h : Off cfg (s.mapIo f) netif a u) : Off cfg s netif a u := by
  cases h with
  | ends io ifRow hio hr => exact Off.ends io ifRow hio hr
  | arp io hio x => exact Off.arp io hio x
  | frag4 io hio h4 hn ip4 => exact Off.frag4 io hio h4 hn ip4
  | frag6 io hio hn fr ip6 hfr hip hs => exact Off.frag6 io hio hn fr ip6 hfr hip hs

theorem Off.drop (why : Drop) (hio : s.side.io.Blank) : Off cfg s netif a (s.drop why) :=
  Off.io (fun io => io.dropped why) hio

theorem dUpper_off {t : Upper} (hio : s.side.io.Blank) : Off cfg s netif a (dUpper e s a t) := by
  refine Off.io (fun io => io.answered (e.upper t io a)) ⟨⟨?_,hio.1.2⟩,hio.2⟩
  show (e.upper t s.side.io a).kind.pcbKind≠.tcp
  cases (e.upper t s.side.io a).kind <;> decide

/-- A call on its way: nothing is named and nothing is reported yet. -/
structure Clean (s : Stack) (netif : ℕ) : Prop where
  blank : s.side.io.Blank
  kind : s.side.io.pcbKind≠.udp
  quiet : s.side.io.loud=false
  netif : s.side.io.netif=netif

variable (cfg e s netif a) in
/-- A payload is passed to its protocol, and any other call ends without one; raw bindings are told where it was named. -/
def Routes (fr : Octets) (p : Option Io) (u : Stack) : Prop :=
  (∃ io ptr,p=some io ∧ Clean (s.withIo io) netif ∧ (io.proto=6 → ptr=io.errPtr) ∧
      u=passed cfg e s a fr {io with errPtr := ptr}) ∨
    p=none ∧ Off cfg s netif a u ∧ u.side.io.Still a

/-- Two reports that name the same and are as loud. -/
structure Alike (t u : Io) : Prop where
  kind : u.pcbKind=t.pcbKind
  tcp : u.act.tcp=t.act.tcp
  loud : u.loud=t.loud
  version : u.ipVersion=t.ipVersion

theorem Alike.unnamed {t u : Io} (h : Alike t u) (ht : t.Unnamed) : u.Unnamed := ⟨by rw [h.kind]; exact ht.1,h.tcp.trans ht.2⟩

theorem Clean.still {io : Io} (h : Clean s netif) (hs : Alike s.side.io io) : io.Still a :=
  ⟨by rw [hs.kind]; exact h.kind,.inr (hs.loud.trans h.quiet)⟩

theorem Clean.ends (h : Clean s netif) (ho : Off cfg s netif a u) (ha : Alike s.side.io u.side.io) :
    Routes cfg e s netif a fr none u := .inr ⟨rfl,ho,h.still ha⟩

theorem Clean.drop (h : Clean s netif) (why : Drop) : Routes cfg e s netif a fr none (s.drop why) :=
  h.ends (Off.drop why h.blank) ⟨rfl,rfl,rfl,rfl⟩

theorem Routes.of_mapIo {p : Option Io} {f : Io → Io} (h : Routes cfg e (s.mapIo f) netif a fr p u) :
    Routes cfg e s netif a fr p u := by
  rcases h with ⟨io,ptr,hp,hc,ht,hu⟩|⟨hp,ho,hs⟩
  · exact .inl ⟨io,ptr,hp,hc,ht,hu⟩
  · exact .inr ⟨hp,ho.of_mapIo,hs⟩

/-- A fragment that is held or refused changes the ring and the reassembly alone, beside the report. -/
theorem dIp4Frag_frame (cfg : Config) (s : Stack) (a : InputArgs) (ip4 : Octets) :
    ∃ ring io re,dIp4Frag cfg s a ip4={s with side := {s.side with ring := ring,io := io},ip4Reass := re} ∧
      Alike s.side.io io := by
  unfold dIp4Frag
  dsimp only
  split
  · exact ⟨_,_,_,rfl,rfl,rfl,rfl,rfl⟩
  rw [dPin_eq]
  split
  · exact ⟨_,_,_,rfl,rfl,rfl,rfl,rfl⟩
  split
  · rw [dUnpin_eq]
    exact ⟨_,_,_,rfl,rfl,rfl,rfl,rfl⟩
  · exact ⟨_,_,_,rfl,rfl,rfl,rfl,rfl⟩

theorem dIp6Frag_frame (cfg : Config) (s : Stack) (a : InputArgs) (ip6 : Octets) (totalLen fragHdr : ℕ) :
    ∃ ring io re,dIp6Frag cfg s a ip6 totalLen fragHdr=
        {s with side := {s.side with ring := ring,io := io},ip6Reass := re} ∧ Alike s.side.io io := by
  unfold dIp6Frag
  dsimp only
  split
  · exact ⟨_,_,_,rfl,rfl,rfl,rfl,rfl⟩
  rw [dPin_eq]
  split
  · exact ⟨_,_,_,rfl,rfl,rfl,rfl,rfl⟩
  split
  · rw [dUnpin_eq]
    exact ⟨_,_,_,rfl,rfl,rfl,rfl,rfl⟩
  · exact ⟨_,_,_,rfl,rfl,rfl,rfl,rfl⟩

/-- An IPv4 payload is passed to its protocol. -/
theorem dIp4Proto_passed (h4 : s.side.io.ipVersion=4) (hip : ip4=fr.drop s.side.io.ipOff) : dIp4Proto cfg e s a fr ip4=
      passed cfg e s a fr (s.side.io.payload (Ip4.proto ip4) (Ip4.hdrLen ip4) (Ip4.totalLen ip4-Ip4.hdrLen ip4)) := by
  have hn : ∀ p off len,(s.side.io.payload p off len).ipVersion=6 ↔ False := fun p off len => by
    show s.side.io.ipVersion=6 ↔ False
    simp [h4]
  have hp : ∀ p off len,(s.side.io.payload p off len).proto=p := fun _ _ _ => rfl
  unfold dIp4Proto passed upperOf arrivalAt
  subst hip
  simp only [hn,hp,false_and,if_false,ne_eq,not_false_eq_true,true_and]
  split_ifs <;> first | rfl | simp_all

theorem passed_six {io : Io} (h : io.ipVersion=6) : passed cfg e s a fr io=
      if io.proto=58 then dUpper e (s.withIo io) a .icmp6
      else if io.proto=17 then dUpper e (s.withIo io) a .udp
      else if io.proto=136 then dUpper e (s.withIo io) a .udplite
      else if io.proto=6 then dStackTcp cfg (s.withIo io) a fr ((fr.drop io.ipOff).drop 24) ((fr.drop io.ipOff).drop 8) 6
      else dUpper e (s.withIo io) a .raw := by
  unfold passed upperOf arrivalAt
  simp only [h,true_and,ne_eq,not_true_eq_false,false_and,if_false,if_true]
  split_ifs <;> first | rfl | simp_all

/-- So is an IPv6 payload; the raw bindings are told where its protocol was named. -/
theorem dIp6Proto_passed {c : Ip6.Chain} (h6 : s.side.io.ipVersion=6) (hip : ip6=fr.drop s.side.io.ipOff) :
    ∃ ptr,(c.nextHdr=6 → ptr=s.side.io.errPtr) ∧ dIp6Proto cfg e s a fr ip6 totalLen c=
      passed cfg e s a fr {s.side.io.payload c.nextHdr c.offset (totalLen-c.offset) with errPtr := ptr} := by
  subst hip
  unfold dIp6Proto
  by_cases hn : c.nextHdr=58 ∨ c.nextHdr=17 ∨ c.nextHdr=136 ∨ c.nextHdr=6
  · refine ⟨s.side.io.errPtr,fun _ => rfl,?_⟩
    rw [passed_six (by exact h6)]
    rcases hn with h|h|h|h <;> simp only [Io.payload,h] <;> rfl
  · rw [not_or,not_or,not_or] at hn
    refine ⟨c.nextHdrOff%2^16,fun h => absurd h hn.2.2.2,?_⟩
    rw [passed_six (by exact h6)]
    simp only [Io.payload,hn,if_false]
    rfl

variable {avail : ℕ}

theorem dIp4_routes (h : Clean s netif) (hip : ip4=fr.drop s.side.io.ipOff) :
    Routes cfg e s netif a fr (payload4 e s ip4 avail) (dIp4 cfg e s a fr ip4 avail) := by
  have h4 : Clean (s.mapIo fun io => {io with ipVersion := 4}) netif := ⟨h.blank,h.kind,h.quiet,h.netif⟩
  unfold dIp4 payload4
  dsimp only [Stack.mapIo_bound,Stack.mapIo_io]
  by_cases hv : Ip4.verify ip4 avail
  · by_cases hs : dIp4SrcInvalid e s.bound s.side.io.netif (Ip4.src ip4)
    · simp only [hv,hs,Bool.not_true,Bool.false_or,Bool.false_eq_true,if_false,if_true]
      exact (h4.drop _).of_mapIo
    simp only [hv,hs,Bool.not_true,Bool.false_or,Bool.false_eq_true,if_false]
    cases hd : dIp4Dest e s.bound s.side.io.netif (Ip4.dst ip4) with
    | forward =>
      rw [if_pos (.inl (by decide))]
      exact (h4.ends (Off.io _ h.blank) ⟨rfl,rfl,rfl,rfl⟩).of_mapIo
    | drop =>
      rw [if_pos (.inl (by decide))]
      exact (h4.drop _).of_mapIo
    | here =>
      by_cases hf : Ip4.isFragment ip4
      · rw [if_pos (.inr hf)]
        obtain ⟨ring,io,re,he,ha⟩ := dIp4Frag_frame cfg (s.mapIo fun io => {io with ipVersion := 4}) a ip4
        refine .inr ⟨rfl,?_,?_⟩
        · simp only [hf,if_true]
          exact Off.frag4 {s.side.io with ipVersion := 4} h.blank rfl h.netif ip4
        · simp only [hf,if_true,he]
          exact h4.still ha
      · rw [if_neg (by simp [hf])]
        refine .inl ⟨_,s.side.io.errPtr,rfl,⟨h.blank,h.kind,h.quiet,h.netif⟩,fun _ => rfl,?_⟩
        rw [if_neg hf]
        exact dIp4Proto_passed (s := s.mapIo fun io => {io with ipVersion := 4}) rfl hip
  · simp only [hv,Bool.not_false,Bool.true_or,if_true]
    exact (h4.drop _).of_mapIo

/-- An IPv6 packet whose header or chain is not in order is dropped, and another goes where it belongs. -/
theorem dIp6_eq (s : Stack) (fr ip6 : Octets) (avail : ℕ) : dIp6 cfg e s a fr ip6 avail=
      if chainOk ip6 avail then
        match dIp6Dest e s.bound cfg.ip6Addresses s.side.io.netif (ip6.drop 24) with
        | .forward => (s.mapIo fun io => {io with ipVersion := 6}).mapIo fun io => {io with act := {io.act with forward := true}}
        | .drop => (s.mapIo fun io => {io with ipVersion := 6}).drop .ipAddress
        | .here => dIp6Here cfg e (s.mapIo fun io => {io with ipVersion := 6}) a fr ip6 (40+Ip6.payloadLen ip6)
          (Ip6.walk ip6 (40+Ip6.payloadLen ip6))
      else (s.mapIo fun io => {io with ipVersion := 6}).drop .ipHeader := by
  unfold dIp6
  dsimp only [Stack.mapIo_bound,Stack.mapIo_io]
  by_cases hc : chainOk ip6 avail
  · rw [if_pos hc]
    simp only [chainOk,Bool.and_eq_true,decide_eq_true_eq,beq_iff_eq] at hc
    obtain ⟨⟨⟨h40,hv⟩,hl⟩,hok⟩ := hc
    rw [if_neg (not_lt.2 h40),if_neg (not_not.2 hv),if_neg (not_lt.2 hl)]
    refine (if_neg (by simp [hok])).trans ?_
    cases dIp6Dest e s.bound cfg.ip6Addresses s.side.io.netif (ip6.drop 24) <;> rfl
  rw [if_neg hc]
  split_ifs with h1 h2 h3 h4
  · rfl
  · rfl
  · rfl
  · rfl
  · refine absurd ?_ hc
    simp only [chainOk,Bool.and_eq_true,decide_eq_true_eq,beq_iff_eq]
    exact ⟨⟨⟨by omega,not_not.1 h2⟩,by omega⟩,by simpa using h4⟩

/-- A packet that is here is passed on, or goes no further than a fragment does. -/
theorem dIp6Here_routes {c : Ip6.Chain} (h : Clean s netif) (h6 : s.side.io.ipVersion=6) (hip : ip6=fr.drop s.side.io.ipOff)
    (hfr : a.frame=some fr) (hc : c=Ip6.walk ip6 totalLen) (ht : totalLen=40+Ip6.payloadLen ip6) (hok : c.ok) :
    Routes cfg e s netif a fr (if c.routed || c.refused || c.fragmented then none
      else some (s.side.io.payload c.nextHdr c.offset (totalLen-c.offset))) (dIp6Here cfg e s a fr ip6 totalLen c) := by
  unfold dIp6Here
  cases c.routed with
  | true => exact h.ends (Off.of_mapIo (Off.drop _ h.blank)) ⟨rfl,rfl,rfl,rfl⟩
  | false =>
    cases c.refused with
    | true => exact h.ends (Off.of_mapIo (Off.drop _ h.blank)) ⟨rfl,rfl,rfl,rfl⟩
    | false =>
      cases c.fragmented with
      | false =>
        obtain ⟨ptr,ht,hp⟩ := dIp6Proto_passed h6 hip
        exact .inl ⟨_,ptr,rfl,⟨h.blank,h.kind,h.quiet,h.netif⟩,ht,hp⟩
      | true =>
        simp only [Bool.or_true,Bool.false_eq_true,if_true,if_false]
        split_ifs with hnd
        · exact h.drop _
        · obtain ⟨ring,io,re,he,ha⟩ := dIp6Frag_frame cfg s a ip6 totalLen c.fragHdr
          refine .inr ⟨rfl,?_,by rw [he]; exact h.still ha⟩
          subst hc ht
          exact Off.frag6 s.side.io h.blank h.netif fr ip6 hfr hip (by simp [screened,hok,hnd])

theorem dIp6_routes (h : Clean s netif) (hip : ip6=fr.drop s.side.io.ipOff) (hfr : a.frame=some fr) :
    Routes cfg e s netif a fr (payload6 cfg e s ip6 avail) (dIp6 cfg e s a fr ip6 avail) := by
  have h6 : Clean (s.mapIo fun io => {io with ipVersion := 6}) netif := ⟨h.blank,h.kind,h.quiet,h.netif⟩
  rw [dIp6_eq]
  unfold payload6
  dsimp only
  by_cases hc : chainOk ip6 avail
  · rw [if_pos hc,if_neg (by simp [hc])]
    cases dIp6Dest e s.bound cfg.ip6Addresses s.side.io.netif (ip6.drop 24) with
    | forward =>
      rw [if_pos (by decide)]
      exact (h6.ends (Off.io _ h.blank) ⟨rfl,rfl,rfl,rfl⟩).of_mapIo
    | drop =>
      rw [if_pos (by decide)]
      exact (h6.drop _).of_mapIo
    | here =>
      rw [if_neg (not_not.2 rfl)]
      simp only [chainOk,Bool.and_eq_true] at hc
      exact (dIp6Here_routes h6 rfl hip hfr rfl rfl hc.2).of_mapIo
  · rw [if_neg hc,if_pos (by simpa using hc)]
    exact (h6.drop _).of_mapIo

theorem arpReply_off {x : ArpTable.InputArgs} {r : NetifRec} {io : Io} (hio : io.Blank) (hk : io.pcbKind≠.udp) :
    let u := arpReply ({s.withIo io with arp := ArpTable.input cfg s.arp x}.mapIo fun io =>
      {io with act := {io.act with deliver := true}}) a r
    Off cfg s netif a u ∧ u.side.io.pcbKind≠.udp := by
  unfold arpReply
  dsimp only
  split_ifs
  · exact ⟨Off.arp {io with act := {io.act with deliver := true}} hio x,hk⟩
  · exact ⟨Off.arp {io with status := .busy,act := {io.act with deliver := true}} hio x,hk⟩
  · exact ⟨Off.arp {io with outLen := 60,act := {io.act with deliver := true,send := true}} hio x,hk⟩

variable (cfg e a) in
theorem dArp_off (packet : Octets) (avail : ℕ) (hb : s.side.io.Blank) :
    Off cfg s netif a (dArp cfg e s a packet avail) ∧ (dArp cfg e s a packet avail).side.io.pcbKind≠.udp := by
  have hio : ({s.side.io with pcbKind := .arp} : Io).Blank := ⟨⟨by simp,hb.1.2⟩,hb.2⟩
  have hk : PcbKind.arp≠.udp := by decide
  unfold dArp
  dsimp only
  split
  · exact ⟨Off.of_mapIo (Off.drop _ hio),hk⟩
  split
  · exact ⟨Off.of_mapIo (Off.drop _ hio),hk⟩
  split
  · exact ⟨Off.of_mapIo (Off.drop _ hio),hk⟩
  split
  · exact ⟨Off.arp ({s.side.io with pcbKind := .arp}.dropped .noPcb) hio _,hk⟩
  · exact arpReply_off hio hk

theorem dropVlan_off {n : ℕ} {vid : BitVec 16} (hio : s.side.io.Blank) : Off cfg s netif a (dropVlan s n vid) := by
  refine Off.ends ({s.side.io with lastVid := vid}.dropped .vlanPolicy)
    (Function.update s.side.ifRow n {s.side.ifRow n with lastVid := vid}) hio ?_
  intro m
  by_cases hm : m=n
  · subst hm
    exact ⟨vid,by simp⟩
  · exact ⟨(s.side.ifRow m).lastVid,by simp [hm]⟩

theorem dLink_route (h : Clean s netif) :
    (∃ v,Vlan.parse fr a.len=some v ∧ dLink s a fr=(s.withIo (s.side.io.linked v),some v.payloadOff)) ∨
      (dLink s a fr).2=none ∧ Off cfg s netif a (dLink s a fr).1 ∧ (dLink s a fr).1.side.io.Still a := by
  have hio := h.blank
  have hs : s.side.io.Still a := ⟨h.kind,.inr h.quiet⟩
  unfold dLink
  split
  · exact .inr ⟨rfl,Off.drop _ hio,hs⟩
  split
  · exact .inr ⟨rfl,Off.drop _ hio,hs⟩
  cases hv : Vlan.parse fr a.len with
  | none => exact .inr ⟨rfl,Off.drop _ hio,hs⟩
  | some v =>
    dsimp only
    split
    · exact .inl ⟨v,rfl,rfl⟩
    split
    · exact .inr ⟨rfl,Off.of_mapIo (Off.drop _ hio),hs⟩
    split
    · exact .inl ⟨v,rfl,rfl⟩
    · exact .inr ⟨rfl,Off.of_mapIo (dropVlan_off hio),hs⟩

theorem dNetwork_routes {off : ℕ} (h : Clean s netif) (hfr : a.frame=some fr) (ht : s.side.io.type=0x0806 → ArpFrame a) :
    Routes cfg e s netif a fr (payloadNet cfg e s a fr off) (dNetwork cfg e s a fr off) := by
  have hc : Clean (s.mapIo fun io => {io with ipOff := off}) netif := ⟨h.blank,h.kind,h.quiet,h.netif⟩
  unfold dNetwork payloadNet
  by_cases h4 : s.side.io.type=0x0800
  · simp only [Stack.mapIo_io,h4,if_true]
    exact (dIp4_routes hc rfl).of_mapIo
  by_cases ha : s.side.io.type=0x0806
  · obtain ⟨ho,hk⟩ := dArp_off cfg e a (fr.drop off) (a.len-off) (s := s.mapIo fun io => {io with ipOff := off}) h.blank
    simp only [Stack.mapIo_io,ha]
    exact .inr ⟨rfl,ho.of_mapIo,hk,.inl (ht ha)⟩
  by_cases h6 : s.side.io.type=0x86DD
  · simp only [Stack.mapIo_io,h6]
    exact (dIp6_routes hc rfl hfr).of_mapIo
  · simp only [Stack.mapIo_io,h4,ha,h6,if_false]
    exact (hc.drop _).of_mapIo

theorem entered_clean (s : Stack) (a : InputArgs) : Clean (entered s a) a.netif :=
  ⟨⟨⟨by simp [entered,Io.reset],rfl⟩,rfl⟩,by simp [entered,Io.reset],rfl,rfl⟩

/-- A frame whose payload gets to its protocol is passed to it, and any other call ends without one. -/
theorem input_routes (cfg : Config) (e : Env) (s : Stack) (a : InputArgs) :
    Routes cfg e s a.netif a (a.frame.getD .zero) (payloadOf cfg e s a) (input cfg e s a) := by
  have hk : s.side.io.reset.pcbKind=.none := rfl
  have hrs : Routes cfg e s a.netif a (a.frame.getD .zero) none (s.mapIo fun io => {io.reset with status := .err}) :=
    .inr ⟨rfl,Off.io _ ⟨⟨by simp [hk],rfl⟩,rfl⟩,by simp [hk],.inr rfl⟩
  have hin := entered_clean s a
  unfold input payloadOf
  cases hf : a.frame with
  | none =>
    rw [hf] at hrs
    exact hrs
  | some frame =>
    rw [hf] at hrs
    dsimp only
    by_cases hg : (!s.side.ready || a.len==0 || decide (cfg.netifCount≤a.netif))
    · rw [if_pos hg,if_pos (by exact hg)]
      exact hrs
    rw [if_neg hg,if_neg (by exact hg)]
    show let l := dLink (entered s a) a frame
      Routes cfg e s a.netif a frame _ (match l.2 with | none => l.1 | some off => dNetwork cfg e l.1 a frame off)
    dsimp only
    rcases dLink_route hin with ⟨v,hv,hl⟩|⟨hl,ho,hs⟩
    · rw [hl]
      have hc : Clean ((entered s a).withIo ((entered s a).side.io.linked v)) a.netif := ⟨hin.blank,hin.kind,hin.quiet,rfl⟩
      exact (dNetwork_routes hc hf fun ht => ⟨frame,v,hf,hv,ht⟩).of_mapIo.of_mapIo
    · rw [hl]
      exact .inr ⟨rfl,ho.of_mapIo,hs⟩

/-- `input` hands a segment to TCP exactly when `arrival` says so, and ends otherwise. -/
theorem input_route (cfg : Config) (e : Env) (s : Stack) (a : InputArgs) :
    (∃ r,arrival cfg e s a=some r ∧ input cfg e s a=handed cfg s a r) ∨
      arrival cfg e s a=none ∧ Off cfg s a.netif a (input cfg e s a) := by
  unfold arrival
  rcases input_routes cfg e s a with ⟨io,ptr,hp,hc,ht,hu⟩|⟨hp,ho,-⟩
  · rw [hp,hu]
    unfold passed
    by_cases h6 : io.proto=6
    · rw [ht h6]
      refine .inl ⟨_,?_,if_pos h6⟩
      have hk : (some io).filter (fun io => io.proto==6)=some io := Option.filter_some_pos (beq_iff_eq.2 h6)
      rw [hk]
      rfl
    · have hk : (some io).filter (fun io => io.proto==6)=none := Option.filter_some_neg (by simpa using h6)
      rw [hk,if_neg (by exact h6)]
      exact .inr ⟨rfl,(dUpper_off (s := s.withIo {io with errPtr := ptr}) hc.blank).of_mapIo⟩
  · rw [hp]
    exact .inr ⟨rfl,ho⟩

/-- What is known of a segment that reached TCP. -/
structure Arrived (cfg : Config) (s : Stack) (a : InputArgs) (r : Arrival) : Prop where
  ready : s.side.ready=true
  netif_lt : a.netif < cfg.netifCount
  /-- The segment lies in the frame handed in. -/
  frame : a.frame=some r.frame
  netif : r.io.netif=a.netif
  act : r.io.act=.none
  kind : r.io.pcbKind=.none
  ipVersion : r.ipVersion=4 ∨ r.ipVersion=6
  /-- The header lies behind a link and an internet header. -/
  off : 34 ≤ r.io.payloadOff
  fits : r.io.payloadOff+r.io.payloadLen≤a.len
  len_lt : r.io.payloadLen<2^16

variable {io : Io}

/-- An IPv4 payload lies where the header says. -/
theorem payload4_some (h : payload4 e s ip4 avail=some io) :
    io.netif=s.side.io.netif ∧ io.act=s.side.io.act ∧ io.pcbKind=s.side.io.pcbKind ∧ s.side.io.ipOff+20 ≤ io.payloadOff ∧
      io.payloadOff+io.payloadLen ≤ s.side.io.ipOff+avail ∧ io.payloadLen<2^16 := by
  unfold payload4 at h
  split_ifs at h with hv hd
  cases h
  have hvr : Ip4.verify ip4 avail := by
    simp only [Bool.or_eq_true,Bool.not_eq_true',not_or,Bool.not_eq_false] at hv
    exact hv.1
  have hb := Ip4.verify_bounds hvr
  have ht : Ip4.totalLen ip4<2^16 := BitVec.isLt _
  simp only [Io.payload]
  exact ⟨trivial,trivial,trivial,by omega,by omega,by omega⟩

/-- So does an IPv6 payload. -/
theorem payload6_some (h : payload6 cfg e s ip6 avail=some io) :
    io.netif=s.side.io.netif ∧ io.act=s.side.io.act ∧ io.pcbKind=s.side.io.pcbKind ∧ s.side.io.ipOff+20 ≤ io.payloadOff ∧
      io.payloadOff+io.payloadLen ≤ s.side.io.ipOff+avail ∧ io.payloadLen<2^16 := by
  unfold payload6 at h
  dsimp only at h
  split_ifs at h with hv hd hs
  cases h
  simp only [chainOk,Bool.not_eq_true,Bool.not_eq_false',Bool.and_eq_true,decide_eq_true_eq] at hv
  have hw := Ip6.walk_offset hv.2
  have hp : Ip6.payloadLen ip6<2^16 := BitVec.isLt _
  simp only [Io.payload]
  exact ⟨trivial,trivial,trivial,by omega,by omega,by omega⟩

theorem arrivalAt_parts (fr : Octets) (io : Io) : (arrivalAt fr io).io=io ∧ (arrivalAt fr io).frame=fr ∧
      ((arrivalAt fr io).ipVersion=4 ∨ (arrivalAt fr io).ipVersion=6) := by
  unfold arrivalAt
  dsimp only
  split_ifs
  · exact ⟨rfl,rfl,.inr rfl⟩
  · exact ⟨rfl,rfl,.inl rfl⟩

/-- What `arrival` says of a segment. -/
theorem arrival_some {r : Arrival} (h : arrival cfg e s a=some r) : Arrived cfg s a r := by
  obtain ⟨io,hio,rfl⟩ := Option.map_eq_some_iff.1 h
  obtain ⟨hp,-⟩ := Option.filter_eq_some_iff.1 hio
  have hin := entered_clean s a
  unfold payloadOf at hp
  obtain ⟨hi,hfr,hver⟩ := arrivalAt_parts (a.frame.getD .zero) io
  generalize arrivalAt (a.frame.getD .zero) io=r at *
  subst hi
  cases hf : a.frame with
  | none => simp [hf] at hp
  | some frame =>
    simp only [hf] at hp
    split_ifs at hp with hg
    have hg' : (s.side.ready ∧ a.len≠0) ∧ a.netif < cfg.netifCount := by
      simpa [not_or] using hg
    have hrt : _ ∨ (dLink (entered s a) a frame).2=none ∧ Off cfg (entered s a) a.netif a _ ∧ _ := dLink_route hin
    rcases hrt with ⟨v,hv,hl⟩|⟨hl,-⟩
    · have hoff := Vlan.parse_payloadOff hv
      simp only [hl] at hp
      -- either family: the same bounds, from where the link header ends
      have hr : r.io.netif=a.netif ∧ r.io.act=.none ∧ r.io.pcbKind=.none ∧ v.payloadOff+20 ≤ r.io.payloadOff ∧
          r.io.payloadOff+r.io.payloadLen≤v.payloadOff+(a.len-v.payloadOff) ∧ r.io.payloadLen<2^16 := by
        unfold payloadNet at hp
        dsimp only at hp
        split_ifs at hp
        · exact payload4_some hp
        · exact payload6_some hp
      obtain ⟨h1,h2,h3,h4,h5,h6⟩ := hr
      exact ⟨hg'.1.1,hg'.2,by rw [hf,hfr,hf]; rfl,h1,h2,h3,hver,by omega,by omega,h6⟩
    · simp [hl] at hp

end Route

end Network

end IdemIp.Dispatch
