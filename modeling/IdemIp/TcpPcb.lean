import IdemIp.Config
import IdemIp.Checksum
import IdemIp.IndexChain
import Mathlib.Logic.Function.Basic

/-!
# The connection tables, `tcp_pcb.c`

Four tables (connections, listeners, send segments, held segments) and the
operand block of the unit. Connections thread their segments by index through
the two shared tables. An entry takes its operands as arguments; what it
reports stays in the block until the next entry overwrites it.
-/

namespace IdemIp.TcpPcb

open IndexChain Function

/-- One connection, `TcpPcbTcbFields`. -/
structure Tcb where
  vars : TcpVars
  ctl : TcpPcbCtl
  /-- Local address, sixteen octets wide for both families. -/
  (localIp remoteIp : Octets)
  (localPort remotePort : BitVec 16)
  listener : ℕ
  /-- Head of the segments not sent yet. -/
  unsent : ℕ
  /-- Head of the segments not acknowledged yet. -/
  unacked : ℕ
  /-- Head of the segments held out of order. -/
  (ooseq localZone remoteZone netif : ℕ)
  (tos ttl : BitVec 8)
  ipVersion : ℕ
  state : TcpState
  inUse : Bool

/-- One listener, `TcpPcbListenFields`. -/
structure Listener where
  /-- Address listened on, unspecified for every one. -/
  localIp : Octets
  localPort : BitVec 16
  (localZone netif backlog ipVersion : ℕ)
  state : TcpState
  inUse : Bool

/-- One send-queue segment, `TcpPcbSegFields`. -/
structure Seg where
  /-- Caller's octets, null for a segment without data. -/
  data : Option Octets
  seq : BitVec 32
  (next pcb : ℕ)
  (len flags opts : BitVec 16)
  inUse : Bool

/-- One held segment, `TcpPcbOosFields`. -/
structure Oos where
  seq : BitVec 32
  (next pcb desc : ℕ)
  /-- Where in the frame the octets start. -/
  (offset len : BitVec 16)
  inUse : Bool

/-- A connection row after `memset`. -/
def Tcb.zero : Tcb :=
  ⟨.zero,.zero,.zero,.zero,0,0,0,0,0,0,0,0,0,0,0,0,.closed,false⟩

/-- A listener row after `memset`. -/
def Listener.zero : Listener := ⟨.zero,0,0,0,0,0,.closed,false⟩

/-- A segment row after `memset`. -/
def Seg.zero : Seg := ⟨none,0,0,0,0,0,0,false⟩

/-- A held-segment row after `memset`. -/
def Oos.zero : Oos := ⟨0,0,0,0,0,0,false⟩

/-- What `load` reports beside the variables, `TcpPcbInfo`. -/
structure Info where
  (localIp remoteIp : Octets)
  (localPort remotePort : BitVec 16)
  (listener unsent unacked ooseq localZone remoteZone netif : ℕ)
  (tos ttl : BitVec 8)
  ipVersion : ℕ

/-- `info` after `memset`. -/
def Info.zero : Info := ⟨.zero,.zero,0,0,0,0,0,0,0,0,0,0,0,0⟩

/-- Result members of the operand block, `TcpPcbIo`; `store` also reads the first three. -/
structure Io where
  vars : TcpVars
  ctl : TcpPcbCtl
  state : TcpState
  status : Status
  index : ℕ
  port : BitVec 16
  /-- Row read by `load`. -/
  info : Info
  /-- Row read by `seg_load`. -/
  seg : Seg
  /-- Row read by `oos_load`. -/
  oos : Oos

/-- The four tables. -/
structure Tables where
  tcb : ℕ → Tcb
  listener : ℕ → Listener
  seg : ℕ → Seg
  oos : ℕ → Oos

/-- The borrow: ready mark, tables, operand block. -/
structure Work where
  /-- Whether `clear` has marked it. -/
  ready : Bool
  tab : Tables
  io : Io

variable (w : Work) (t : Tables) (i : ℕ)

def Tables.zero : Tables := ⟨fun _ => .zero,fun _ => .zero,fun _ => .zero,fun _ => .zero⟩

def Tables.setTcb (x : Tcb) : Tables := {t with tcb := update t.tcb i x}

def Tables.setListener (x : Listener) : Tables :=
  {t with listener := update t.listener i x}

def Tables.setSeg (x : Seg) : Tables := {t with seg := update t.seg i x}

def Tables.setOos (x : Oos) : Tables := {t with oos := update t.oos i x}

/-- Link of a send segment. -/
def Tables.segNext : ℕ := (t.seg i).next

/-- Link of a held segment. -/
def Tables.oosNext : ℕ := (t.oos i).next

/-- Set one send segment's link. -/
def Tables.linkSeg (i n : ℕ) : Tables := t.setSeg i {t.seg i with next := n}

/-- Set one held segment's link. -/
def Tables.linkOos (i n : ℕ) : Tables := t.setOos i {t.oos i with next := n}

section Lookups

variable (t : Tables) (i n : ℕ) (x : Tcb) (j : ℕ)

@[simp] theorem Tables.setTcb_seg : (t.setTcb i x).seg=t.seg := rfl

@[simp] theorem Tables.setTcb_oos : (t.setTcb i x).oos=t.oos := rfl

@[simp] theorem Tables.setTcb_segNext : (t.setTcb i x).segNext=t.segNext := rfl

@[simp] theorem Tables.setTcb_oosNext : (t.setTcb i x).oosNext=t.oosNext := rfl

@[simp] theorem Tables.setSeg_tcb (x : Seg) : (t.setSeg i x).tcb=t.tcb := rfl

@[simp] theorem Tables.setOos_tcb (x : Oos) : (t.setOos i x).tcb=t.tcb := rfl

@[simp] theorem Tables.setOos_seg (x : Oos) : (t.setOos i x).seg=t.seg := rfl

@[simp] theorem Tables.linkSeg_tcb : (t.linkSeg i n).tcb=t.tcb := rfl

@[simp] theorem Tables.linkOos_tcb : (t.linkOos i n).tcb=t.tcb := rfl

@[simp] theorem Tables.setTcb_tcb : (t.setTcb i x).tcb j=if j=i then x else t.tcb j := update_apply ..

@[simp] theorem Tables.setSeg_seg (x : Seg) (j : ℕ) : (t.setSeg i x).seg j=if j=i then x else t.seg j := update_apply ..

@[simp] theorem Tables.setOos_oos (x : Oos) (j : ℕ) : (t.setOos i x).oos j=if j=i then x else t.oos j := update_apply ..

@[simp] theorem Tables.setSeg_segNext (x : Seg) (j : ℕ) : (t.setSeg i x).segNext j=if j=i then x.next else t.segNext j := by
  unfold Tables.segNext
  rw [Tables.setSeg_seg]
  split_ifs <;> rfl

@[simp] theorem Tables.setOos_oosNext (x : Oos) (j : ℕ) : (t.setOos i x).oosNext j=if j=i then x.next else t.oosNext j := by
  unfold Tables.oosNext
  rw [Tables.setOos_oos]
  split_ifs <;> rfl

@[simp] theorem Tables.linkSeg_segNext : (t.linkSeg i n).segNext j=if j=i then n else t.segNext j := Tables.setSeg_segNext ..

@[simp] theorem Tables.linkOos_oosNext : (t.linkOos i n).oosNext j=if j=i then n else t.oosNext j := Tables.setOos_oosNext ..

theorem Tables.setTcb_keeps {α : Type*} (f : Tcb → α) {x : Tcb} (hx : f x=f (t.tcb i)) (j : ℕ) :
    f ((t.setTcb i x).tcb j)=f (t.tcb j) := by
  rw [Tables.setTcb_tcb]
  split_ifs with hj
  · rw [hx,hj]
  · rfl

@[simp] theorem Tables.linkSeg_owner :
    ((t.linkSeg i n).seg j).inUse=(t.seg j).inUse ∧ ((t.linkSeg i n).seg j).pcb=(t.seg j).pcb := by
  unfold Tables.linkSeg
  rw [Tables.setSeg_seg]
  split_ifs with h
  · simp [h]
  · simp

@[simp] theorem Tables.linkOos_owner :
    ((t.linkOos i n).oos j).inUse=(t.oos j).inUse ∧ ((t.linkOos i n).oos j).pcb=(t.oos j).pcb := by
  unfold Tables.linkOos
  rw [Tables.setOos_oos]
  split_ifs with h
  · simp [h]
  · simp

end Lookups

def Work.status (w : Work) (s : Status) : Work := {w with io := {w.io with status := s}}

/-- Report an outcome and no row. -/
def Work.noIndex (s : Status) : Work := {w with io := {w.io with status := s,index := noneIndex}}

/-- Report success on a row over changed tables. -/
def Work.took : Work :=
  {w with tab := t,io := {w.io with status := .ok,index := i}}

/-- Report success over changed tables. -/
def Work.done : Work := {w with tab := t,io := {w.io with status := .ok}}

/-- Octets of an address of the family, `tcp_pcb_addr_bytes`. -/
def addrBytes (ipVersion : ℕ) : ℕ := if ipVersion=4 then 4 else if ipVersion=6 then 16 else 0

/-- Destinations RFC 9293 permits out of a state, `tcp_pcb_transitions`. -/
def transitions : TcpState → List TcpState
  | .closed => [.closed,.listen,.synSent,.synReceived]
  | .listen => [.listen,.closed,.synSent,.synReceived]
  | .synSent => [.synSent,.closed,.synReceived,.established,.timeWait]
  | .synReceived => [.synReceived,.closed,.listen,.established,.finWait1,.closeWait,.timeWait]
  | .established => [.established,.closed,.finWait1,.closeWait,.timeWait]
  | .finWait1 => [.finWait1,.closed,.finWait2,.closing,.timeWait]
  | .finWait2 => [.finWait2,.closed,.timeWait]
  | .closeWait => [.closeWait,.closed,.lastAck,.timeWait]
  | .closing => [.closing,.closed,.timeWait]
  | .lastAck => [.lastAck,.closed,.timeWait]
  | .timeWait => [.timeWait,.closed]

/-- Whether a store may move the state, `tcp_pcb_transition_ok`. -/
def transitionOk (s t : TcpState) : Bool := (transitions s).contains t

section Entries

variable (cfg : Config) (t : Tables) (w : Work) (index : ℕ)

/-- Zero the segments threaded from an index, one walk of `tcp_pcb_send_queues_free`. -/
def queueFree (i : ℕ) : Tables :=
  {t with seg := wipe Seg.next cfg.tcpSegs .zero cfg.tcpSegs i t.seg}

/-- Free both send queues of a connection, `tcp_pcb_send_queues_free`. -/
def sendQueuesFree (p : ℕ) : Tables :=
  let u := queueFree cfg (queueFree cfg t (t.tcb p).unsent) (t.tcb p).unacked
  u.setTcb p {u.tcb p with unsent := noneIndex,unacked := noneIndex}

/-- Take a segment off whichever send queue carries it, `tcp_pcb_seg_unlink`. -/
def segUnlink (p s : ℕ) : Option Tables :=
  let n := t.segNext s
  if (t.tcb p).unsent=s then some (t.setTcb p {t.tcb p with unsent := n})
  else match pred? t.segNext cfg.tcpSegs s cfg.tcpSegs (t.tcb p).unsent with
    | some q => some (t.linkSeg q n)
    | none =>
      if (t.tcb p).unacked=s then some (t.setTcb p {t.tcb p with unacked := n})
      else match pred? t.segNext cfg.tcpSegs s cfg.tcpSegs (t.tcb p).unacked with
        | some q => some (t.linkSeg q n)
        | none => none

/-- Take a held segment off its queue, `tcp_pcb_oos_unlink`. -/
def oosUnlink (p o : ℕ) : Option Tables :=
  let n := t.oosNext o
  if (t.tcb p).ooseq=o then some (t.setTcb p {t.tcb p with ooseq := n})
  else match pred? t.oosNext cfg.tcpOoseqEntries o cfg.tcpOoseqEntries (t.tcb p).ooseq with
    | some q => some (t.linkOos q n)
    | none => none

/-- Whether another connection holds a local port, `tcp_pcb_port_taken`. -/
def portTaken (port : BitVec 16) (except : ℕ) : Bool :=
  (List.range cfg.tcpPcbs).any fun i => (t.tcb i).inUse && i != except && (t.tcb i).localPort==port

/-- Whether a listener holds a local port, `tcp_pcb_port_listening`. -/
def portListening (port : BitVec 16) : Bool :=
  (List.range cfg.tcpListenPcbs).any fun i => (t.listener i).inUse && (t.listener i).localPort==port

/-- The ephemeral port at or behind a word, `IDEMIP_TCP_PCB_PORT_EPH_FIRST | (x & MASK)`. -/
def portEph (x : BitVec 16) : BitVec 16 := 0x8000 ||| x &&& 0x7FFF

/-- First ephemeral port neither taken nor listened on, zero when there is none. -/
def portScan (t : Tables) (except : ℕ) : ℕ → BitVec 16 → BitVec 16
  | 0,_ => 0
  | n+1,port =>
    if !portTaken cfg t port except && !portListening cfg t port then port
    else portScan t except n (portEph (port+1))

/-- Draw an ephemeral port from a random word, `tcp_pcb_port_draw`. -/
def portDraw (except : ℕ) (rand : BitVec 32) : BitVec 16 :=
  portScan cfg t except 32768 (portEph (rand.truncate 16))

/-- Operands of `find` and `find_listener`, `TcpPcbFindArgs`. -/
structure FindArgs where
  (localIp remoteIp : Option Octets)
  (localPort remotePort : BitVec 16)
  (ipVersion localZone remoteZone netif : ℕ)

/-- Whether a connection carries the tuple asked for, `tcp_pcb_tcb_matches`. -/
def tcbMatches (t : Tcb) (a : FindArgs) (localIp remoteIp : Octets) (n : ℕ) : Bool :=
  if !t.inUse || t.ipVersion != a.ipVersion then false
  else if t.localPort != a.localPort || t.remotePort != a.remotePort then false
  else if t.netif != 0 && t.netif != a.netif then false
  else if !t.localIp.bytesEq localIp n || !t.remoteIp.bytesEq remoteIp n then false
  else if a.ipVersion==6 && (t.localZone != a.localZone || t.remoteZone != a.remoteZone) then false
  else true

/-- Whether a listener answers for the address, `tcp_pcb_listener_matches`. -/
def listenerMatches (l : Listener) (a : FindArgs) (localIp : Octets) (n : ℕ) (wildcard : Bool) : Bool :=
  if !l.inUse || l.ipVersion != a.ipVersion || l.localPort != a.localPort then false
  else if l.netif != 0 && l.netif != a.netif then false
  else if wildcard then l.localIp.bytesZero n
  else if l.localIp.bytesZero n || !l.localIp.bytesEq localIp n then false
  else if a.ipVersion==6 && l.localZone != a.localZone then false
  else true

/-- Zero the tables and the results, `idemip_tcp_pcb_clear`. -/
def clear (_w : Work) : Work :=
  ⟨true,.zero,⟨.zero,.zero,.closed,.ok,noneIndex,0,.zero,.zero,.zero⟩⟩

/-- A connection row as `open` fills it. -/
def Tcb.opened (ipVersion : ℕ) : Tcb :=
  {Tcb.zero with
    listener := noneIndex
    unsent := noneIndex
    unacked := noneIndex
    ooseq := noneIndex
    ttl := cfg.ipDefaultTtl
    ctl := {TcpPcbCtl.zero with r2 := cfg.tcpMaxrtx,r2Syn := cfg.tcpSynmaxrtx}
    ipVersion := ipVersion
    state := .closed
    inUse := true}

/-- Take a free connection row, `idemip_tcp_pcb_open`. -/
def openTcb (ipVersion : ℕ) : Work :=
  if !w.ready then w.noIndex .err
  else if addrBytes ipVersion=0 then w.noIndex .err
  else match firstIndex cfg.tcpPcbs fun i => !(w.tab.tcb i).inUse with
    | none => w.noIndex .busy
    | some i => w.took (w.tab.setTcb i (Tcb.opened cfg ipVersion)) i

/-- Operands of `opt`, `TcpPcbOptArgs`. -/
structure OptArgs where
  index : ℕ
  (tos ttl r2 r2Syn : BitVec 8)

/-- Set the options of a connection, `idemip_tcp_pcb_opt`. -/
def opt (a : OptArgs) : Work :=
  if !w.ready || cfg.tcpPcbs≤a.index then w.status .err
  else
    let t := w.tab.tcb a.index
    if !t.inUse then w.status .err
    else w.done (w.tab.setTcb a.index {t with tos := a.tos,ttl := a.ttl,ctl := {t.ctl with r2 := a.r2,r2Syn := a.r2Syn}})

/-- Delete a connection that holds no segment, `idemip_tcp_pcb_close`. -/
def close : Work :=
  if !w.ready || cfg.tcpPcbs ≤ index then w.status .err
  else if !(w.tab.tcb index).inUse then w.status .err
  else if (w.tab.tcb index).ooseq≠noneIndex then w.status .busy
  else w.done ((sendQueuesFree cfg w.tab index).setTcb index .zero)

/-- Operands of `bind` and `connect`, `TcpPcbAddrArgs`. -/
structure AddrArgs where
  ip : Option Octets
  /-- Random word an ephemeral port is drawn from. -/
  rand : BitVec 32
  index : ℕ
  port : BitVec 16
  (zone netif : ℕ)

/-- Write the local half of the tuple and report the port. -/
def bound (a : AddrArgs) (ip : Octets) (port : BitVec 16) : Work :=
  let t := w.tab.tcb a.index
  {w with
    tab := w.tab.setTcb a.index {t with
        localIp := ip.padded (addrBytes t.ipVersion)
        localPort := port
        localZone := a.zone
        netif := a.netif}
    io := {w.io with status := .ok,port := port}}

/-- Report an outcome and no port. -/
def Work.noPort (s : Status) : Work := {w with io := {w.io with status := s,port := 0}}

/-- Whether a connection may still be named, the guard `bind` and `connect` share. -/
def nameable (t : Tcb) : Bool := t.inUse && addrBytes t.ipVersion != 0 && t.state==.closed

/-- Name the local end of a closed connection, `idemip_tcp_pcb_bind`. -/
def bind (a : AddrArgs) : Work :=
  match a.ip with
  | none => w.noPort .err
  | some ip =>
    if !w.ready || cfg.tcpPcbs≤a.index then w.noPort .err
    else if !nameable (w.tab.tcb a.index) then w.noPort .err
    else if a.port≠0 then bound w a ip a.port
    else if portDraw cfg w.tab a.index a.rand=0 then w.noPort .busy
    else bound w a ip (portDraw cfg w.tab a.index a.rand)

/-- Addresses no connection may be opened to, `tcp_pcb_remote_invalid`. -/
def remoteInvalid (ipVersion : ℕ) (ip : Octets) : Bool :=
  if ipVersion=4 then
    let type := ip4AddrType ip.rd32
    type==.multicast || type==.broadcast || type==.unspecified
  else
    let type := ip6AddrType ip
    type==.multicast || type==.unspecified

/-- Whether a connection holds the pair of ends `connect` would give another. -/
def holdsPair (o t : Tcb) (ip : Octets) (port : BitVec 16) : Bool :=
  let n := addrBytes t.ipVersion
  o.localPort==t.localPort && o.remotePort==port && o.localIp.bytesEq t.localIp n && o.remoteIp.bytesEq ip n

/-- Whether any other connection of the family holds that pair, the scan of `connect`. -/
def pairTaken (ip : Octets) (port : BitVec 16) : Bool :=
  (List.range cfg.tcpPcbs).any fun i =>
    !(!(t.tcb i).inUse || i==index || (t.tcb i).ipVersion != (t.tcb index).ipVersion) &&
      holdsPair (t.tcb i) (t.tcb index) ip port

/-- Name the remote end of a closed connection, `idemip_tcp_pcb_connect`. -/
def connect (a : AddrArgs) : Work :=
  match a.ip with
  | none => w.status .err
  | some ip =>
    let t := w.tab.tcb a.index
    if !w.ready || cfg.tcpPcbs≤a.index then w.status .err
    else if !nameable t then w.status .err
    else if a.port=0 then w.status .err
    else if remoteInvalid t.ipVersion ip then w.status .err
    else if pairTaken cfg w.tab a.index ip a.port then w.status .busy
    else w.done (w.tab.setTcb a.index
      {t with remoteIp := ip.padded (addrBytes t.ipVersion),remotePort := a.port,remoteZone := a.zone})

/-- What `load` reports of a row. -/
def Tcb.info (t : Tcb) : Info :=
  ⟨t.localIp,t.remoteIp,t.localPort,t.remotePort,t.listener,t.unsent,t.unacked,t.ooseq,t.localZone,
    t.remoteZone,t.netif,t.tos,t.ttl,t.ipVersion⟩

/-- Zero the image `load` reports through. -/
def Work.blank : Work :=
  {w with io := {w.io with status := .err,vars := .zero,ctl := .zero,info := .zero,state := .closed}}

/-- Read a connection into the image, `idemip_tcp_pcb_load`. -/
def load : Work :=
  if !w.ready || cfg.tcpPcbs ≤ index then w.blank
  else
    let t := w.tab.tcb index
    if !t.inUse then w.blank
    else {w with io := {w.io with status := .ok,vars := t.vars,ctl := t.ctl,info := t.info,state := t.state}}

/-- Put the image a store is to write. -/
def Work.image (vars : TcpVars) (ctl : TcpPcbCtl) (state : TcpState) : Work :=
  {w with io := {w.io with vars := vars,ctl := ctl,state := state}}

/-- Write the image into a connection, `idemip_tcp_pcb_store`. -/
def store : Work :=
  if !w.ready || cfg.tcpPcbs ≤ index then w.status .err
  else
    let t := w.tab.tcb index
    if !t.inUse || !transitionOk t.state w.io.state then w.status .err
    else w.done (w.tab.setTcb index {t with vars := w.io.vars,ctl := w.io.ctl,state := w.io.state})

/-- Other connections a listener holds in SYN-RECEIVED, `tcp_pcb_syn_received_on`. -/
def synReceivedOn (listener except : ℕ) : ℕ :=
  (List.range cfg.tcpPcbs).countP fun i =>
    i != except && (t.tcb i).inUse && (t.tcb i).listener==listener && (t.tcb i).state==.synReceived

/-- Charge a connection to a listener, `idemip_tcp_pcb_accept`. -/
def accept (index listener : ℕ) : Work :=
  if !w.ready || cfg.tcpPcbs ≤ index then w.status .err
  else
    let t := w.tab.tcb index
    if !t.inUse then w.status .err
    else if listener≠noneIndex ∧ (cfg.tcpListenPcbs≤listener ∨ (w.tab.listener listener).inUse=false) then
      w.status .err
    else if listener≠noneIndex ∧ (w.tab.listener listener).backlog ≤ synReceivedOn cfg w.tab listener index then
      w.status .busy
    else w.done (w.tab.setTcb index {t with listener := listener})

/-- Operands of `listen`, `TcpPcbListenArgs`. -/
structure ListenArgs where
  ip : Option Octets
  port : BitVec 16
  (zone netif backlog ipVersion : ℕ)

/-- Whether a listener holds the address and port already. -/
def listenTaken (a : ListenArgs) (ip : Octets) : Bool :=
  (List.range cfg.tcpListenPcbs).any fun i =>
    (t.listener i).inUse && (t.listener i).localPort==a.port && (t.listener i).ipVersion==a.ipVersion &&
      (t.listener i).localIp.bytesEq ip (addrBytes a.ipVersion)

/-- Open a listener, `idemip_tcp_pcb_listen`. -/
def listen (a : ListenArgs) : Work :=
  match a.ip with
  | none => w.noIndex .err
  | some ip =>
    let n := addrBytes a.ipVersion
    if !w.ready then w.noIndex .err
    else if n=0 ∨ a.port=0 ∨ a.backlog=0 then w.noIndex .err
    else if listenTaken cfg w.tab a ip then w.noIndex .busy
    else match firstIndex cfg.tcpListenPcbs fun i => !(w.tab.listener i).inUse with
      | none => w.noIndex .busy
      | some i => w.took
        (w.tab.setListener i ⟨ip.padded n,a.port,a.zone,a.netif,a.backlog,a.ipVersion,.listen,true⟩) i

/-- Close a listener, `idemip_tcp_pcb_unlisten`. -/
def unlisten : Work :=
  if !w.ready || cfg.tcpListenPcbs ≤ index then w.status .err
  else if !(w.tab.listener index).inUse then w.status .err
  else w.done (w.tab.setListener index .zero)

/-- Find the connection a tuple names, `idemip_tcp_pcb_find`. -/
def find (a : FindArgs) : Work :=
  match a.localIp,a.remoteIp with
  | some localIp,some remoteIp =>
    let n := addrBytes a.ipVersion
    if !w.ready then w.noIndex .err
    else if n=0 then w.noIndex .err
    else match firstIndex cfg.tcpPcbs fun i => tcbMatches (w.tab.tcb i) a localIp remoteIp n with
      | none => w.noIndex .err
      | some i => w.took w.tab i
  | _,_ => w.noIndex .err

/-- Find the listener for an address, specific ones first, `idemip_tcp_pcb_find_listener`. -/
def findListener (a : FindArgs) : Work :=
  match a.localIp with
  | none => w.noIndex .err
  | some localIp =>
    let n := addrBytes a.ipVersion
    if !w.ready then w.noIndex .err
    else if n=0 then w.noIndex .err
    else
      match firstIndex cfg.tcpListenPcbs fun i => listenerMatches (w.tab.listener i) a localIp n false with
      | some i => w.took w.tab i
      | none =>
        match firstIndex cfg.tcpListenPcbs fun i => listenerMatches (w.tab.listener i) a localIp n true with
        | some i => w.took w.tab i
        | none => w.noIndex .err

/-- Operands of `seg_alloc`, from `TcpPcbSegArgs`. -/
structure SegArgs where
  data : Option Octets
  seq : BitVec 32
  pcb : ℕ
  (len flags opts : BitVec 16)

/-- Hang a segment behind the last one of the unsent queue. -/
def unsentAppend (p i : ℕ) : Tables :=
  if cfg.tcpSegs≤(t.tcb p).unsent then t.setTcb p {t.tcb p with unsent := i}
  else match tail? t.segNext cfg.tcpSegs cfg.tcpSegs (t.tcb p).unsent with
    | some q => t.linkSeg q i
    | none => t

/-- Queue a segment to send, `idemip_tcp_pcb_seg_alloc`. -/
def segAlloc (a : SegArgs) : Work :=
  if !w.ready || cfg.tcpPcbs≤a.pcb then w.noIndex .err
  else if !(w.tab.tcb a.pcb).inUse then w.noIndex .err
  else if (a.len != 0)≠a.data.isSome then w.noIndex .err
  else match firstIndex cfg.tcpSegs fun i => !(w.tab.seg i).inUse with
    | none => w.noIndex .busy
    | some i =>
      w.took (unsentAppend cfg (w.tab.setSeg i ⟨a.data,a.seq,noneIndex,a.pcb,a.len,a.flags,a.opts,true⟩) a.pcb i) i

/-- Read a send segment, `idemip_tcp_pcb_seg_load`. -/
def segLoad : Work :=
  if !w.ready || cfg.tcpSegs ≤ index then {w with io := {w.io with status := .err,seg := .zero}}
  else if !(w.tab.seg index).inUse then {w with io := {w.io with status := .err,seg := .zero}}
  else {w with io := {w.io with status := .ok,seg := w.tab.seg index}}

/-- Tables with the first unsent segment taken off its queue. -/
def sentTables (i : ℕ) : Tables :=
  (t.setTcb (t.seg i).pcb {t.tcb (t.seg i).pcb with unsent := (t.seg i).next}).linkSeg i noneIndex

/-- Hang a segment behind the last one of the unacknowledged queue. -/
def unackedAppend (p i : ℕ) : Option Tables :=
  if cfg.tcpSegs≤(t.tcb p).unacked then some (t.setTcb p {t.tcb p with unacked := i})
  else match tail? t.segNext cfg.tcpSegs cfg.tcpSegs (t.tcb p).unacked with
    | some q => some (t.linkSeg q i)
    | none => none

/-- Move the first unsent segment behind the unacknowledged ones, `idemip_tcp_pcb_seg_sent`. -/
def segSent : Work :=
  if !w.ready || cfg.tcpSegs ≤ index then w.status .err
  else
    let s := w.tab.seg index
    if !s.inUse || cfg.tcpPcbs ≤ s.pcb then w.status .err
    else if (w.tab.tcb s.pcb).unsent≠index then w.status .err
    else match unackedAppend cfg (sentTables w.tab index) s.pcb index with
      | some t => w.done t
      | none => {w.status .err with tab := sentTables w.tab index}

/-- Free a send segment, `idemip_tcp_pcb_seg_free`. -/
def segFree : Work :=
  if !w.ready || cfg.tcpSegs ≤ index then w.status .err
  else
    let s := w.tab.seg index
    if !s.inUse || cfg.tcpPcbs ≤ s.pcb then w.status .err
    else match segUnlink cfg w.tab s.pcb index with
      | none => w.status .err
      | some t => w.done (t.setSeg index .zero)

/-- Operands of `oos_alloc`, from `TcpPcbOosArgs`. -/
structure OosArgs where
  seq : BitVec 32
  (pcb desc : ℕ)
  /-- Where in the frame the octets start. -/
  (offset len : BitVec 16)

/-- Whether a held segment starts before another, counted from RCV.NXT. -/
def oosBefore (p : ℕ) (seq : BitVec 32) (i : ℕ) : Bool :=
  let edge := (t.tcb p).vars.rcvNxt
  seq-edge<(t.oos i).seq-edge

/-- Thread a held segment in front of the first one it starts before. -/
def oosInsert (p i : ℕ) : Tables :=
  let place := seek t.oosNext cfg.tcpOoseqEntries (oosBefore t p (t.oos i).seq) cfg.tcpOoseqEntries noneIndex (t.tcb p).ooseq
  let u := t.linkOos i place.2
  if cfg.tcpOoseqEntries≤place.1 then u.setTcb p {u.tcb p with ooseq := i} else u.linkOos place.1 i

/-- Hold a segment that arrived early, `idemip_tcp_pcb_oos_alloc`. -/
def oosAlloc (a : OosArgs) : Work :=
  if !w.ready || cfg.tcpPcbs≤a.pcb then w.noIndex .err
  else
    let t := w.tab.tcb a.pcb
    if !t.inUse || a.len==0 then w.noIndex .err
    else if cfg.tcpOoseqSegs≤(walk w.tab.oosNext cfg.tcpOoseqEntries cfg.tcpOoseqEntries t.ooseq).length then
      w.noIndex .busy
    else match firstIndex cfg.tcpOoseqEntries fun i => !(w.tab.oos i).inUse with
      | none => w.noIndex .busy
      | some i =>
        w.took (oosInsert cfg (w.tab.setOos i ⟨a.seq,noneIndex,a.pcb,a.desc,a.offset,a.len,true⟩) a.pcb i) i

/-- Read a held segment, `idemip_tcp_pcb_oos_load`. -/
def oosLoad : Work :=
  if !w.ready || cfg.tcpOoseqEntries ≤ index then {w with io := {w.io with status := .err,oos := .zero}}
  else if !(w.tab.oos index).inUse then {w with io := {w.io with status := .err,oos := .zero}}
  else {w with io := {w.io with status := .ok,oos := w.tab.oos index}}

/-- Free a held segment, `idemip_tcp_pcb_oos_free`. -/
def oosFree : Work :=
  if !w.ready || cfg.tcpOoseqEntries ≤ index then w.status .err
  else
    let o := w.tab.oos index
    if !o.inUse || cfg.tcpPcbs≤o.pcb then w.status .err
    else match oosUnlink cfg w.tab o.pcb index with
      | none => w.status .err
      | some t => w.done (t.setOos index .zero)

/-- One entry of the unit with its operands. -/
inductive Call
  | clear
  | openTcb (ipVersion : ℕ)
  | opt (a : OptArgs)
  | close (index : ℕ)
  | bind (a : AddrArgs)
  | connect (a : AddrArgs)
  | load (index : ℕ)
  | store (index : ℕ) (vars : TcpVars) (ctl : TcpPcbCtl) (state : TcpState)
  | accept (index listener : ℕ)
  | listen (a : ListenArgs)
  | unlisten (index : ℕ)
  | find (a : FindArgs)
  | findListener (a : FindArgs)
  | segAlloc (a : SegArgs)
  | segLoad (index : ℕ)
  | segSent (index : ℕ)
  | segFree (index : ℕ)
  | oosAlloc (a : OosArgs)
  | oosLoad (index : ℕ)
  | oosFree (index : ℕ)

def step : Call → Work
  | .clear => clear w
  | .openTcb v => openTcb cfg w v
  | .opt a => opt cfg w a
  | .close i => close cfg w i
  | .bind a => bind cfg w a
  | .connect a => connect cfg w a
  | .load i => load cfg w i
  | .store i vars ctl state => store cfg (w.image vars ctl state) i
  | .accept i l => accept cfg w i l
  | .listen a => listen cfg w a
  | .unlisten i => unlisten cfg w i
  | .find a => find cfg w a
  | .findListener a => findListener cfg w a
  | .segAlloc a => segAlloc cfg w a
  | .segLoad i => segLoad cfg w i
  | .segSent i => segSent cfg w i
  | .segFree i => segFree cfg w i
  | .oosAlloc a => oosAlloc cfg w a
  | .oosLoad i => oosLoad cfg w i
  | .oosFree i => oosFree cfg w i

end Entries

end IdemIp.TcpPcb
