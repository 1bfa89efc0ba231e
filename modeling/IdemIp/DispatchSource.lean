import IdemIp.DispatchUdp
import IdemIp.DispatchStore

/-!
# Sources no datagram may have

`d_ip4` refuses a source that is a multicast group, or a loopback address off a
wire. `d_ip6` does not ask, and neither do the transports behind it. Each of them
delivers or answers by tests of the packet and the tables alone, which `takes`
lists.
-/

namespace IdemIp.Dispatch

open TcpIn TcpPcb IndexChain

/-- The borrows of the transports beside TCP, and what their tables answer. -/
structure Transports where
  udp : Udp.Units
  (rawPcb icmp6In : Bool)
  /-- `RawPcb.find` by destination, source, protocol and interface: the binding and its checksum offset. -/
  rawFind : Octets → Octets → BitVec 8 → ℕ → Option (ℕ×Option ℕ)
  /-- The interface table is bound and the interface has a preferred address. -/
  ifAddr : ℕ → Bool

/-- The checksum over `span` octets of a payload of `len` and the pseudo-header, zero when intact. -/
def sum6 (ip6 p : Octets) (proto : BitVec 8) (len span : ℕ) : BitVec 16 :=
  Checksum.final (Checksum.accum (Checksum.pseudo6 0 proto (ip6.drop 8) (ip6.drop 24) (BitVec.ofNat 32 len)) p span)

section Icmp6Types

variable (type : BitVec 8)

/-- Whether an ICMPv6 type is one of Neighbor Discovery, `idemip_icmp6_is_nd`. -/
def icmp6IsNd : Bool := 133≤type && type≤137

/-- Whether it is one of Multicast Listener Discovery, `idemip_icmp6_is_mld`. -/
def icmp6IsMld : Bool := 130≤type && type≤132

/-- Octets before the options of a Neighbor Discovery message, `idemip_icmp6_nd_hdr_len`. -/
def ndHdrLen : ℕ :=
  if type=133 then 8
  else if type=134 then 16
  else if type=135 then 24
  else if type=136 then 24
  else if type=137 then 40
  else 0

/-- Every option closes inside the region and none is empty, `idemip_icmp6_nd_opts_ok`; the length is fuel enough. -/
def ndOptsOk : ℕ → Octets → ℕ → Bool
  | 0,_,len => len==0
  | fuel+1,p,len =>
    if len=0 then true
    else if len<2 then false
    else
      let step := (p 1).toNat<<<3
      if step=0 ∨ len < step then false else ndOptsOk fuel (p.drop step) (len-step)

end Icmp6Types

section Transports

variable (k : Transports) (io : Io) (ip6 p : Octets)

/-- A protocol no module claims, `d_raw`. -/
def dRaw : Answer :=
  if !k.rawPcb then .refused .none .ipProto
  else match k.rawFind (ip6.drop 24) (ip6.drop 8) io.proto io.netif with
    | none => .refused .none .ipProto
    | some (row,none) => .given .raw row
    | some (row,some off) =>
      if io.payloadLen<off+2 ∨ sum6 ip6 p io.proto io.payloadLen io.payloadLen≠0 then .refused .none .cksum
      else .given .raw row

/-- A message of Neighbor or Multicast Listener Discovery, `d_icmp6_nd`. -/
def dIcmp6Nd : Answer :=
  let kind := if icmp6IsMld (p 0) then UpperKind.group else .nd
  let hdrLen := if icmp6IsMld (p 0) then 24 else ndHdrLen (p 0)
  if icmp6IsNd (p 0) ∧ (ip6 7≠255 ∨ p 1≠0) then .refused kind .ipHeader
  else if sum6 ip6 p 58 io.payloadLen io.payloadLen≠0 then .refused kind .cksum
  else if io.payloadLen<hdrLen then .refused kind .short
  else if !icmp6IsMld (p 0) && !ndOptsOk (io.payloadLen-hdrLen) (p.drop hdrLen) (io.payloadLen-hdrLen) then
    .refused kind .short
  else .given kind 0

/-- An error message: the packet it quotes must lead to a protocol, `icmp6_in_error_arrived`. -/
def errorArrived : Answer :=
  if io.payloadLen<8 then .refused .icmp .short
  else if io.payloadLen-8<40 then .refused .icmp .short
  else
    let c := Ip6.walk (p.drop 8) (io.payloadLen-8)
    if !c.ok || c.nextHdr==59 then .refused .icmp .noPcb else .given .icmp 0

/-- A message of another type with room for a reply, `idemip_icmp6_in_recv` and what `d_icmp6` makes of it. -/
def icmp6InRecv (cap : ℕ) : Answer :=
  if !k.ifAddr io.netif then .refused .icmp .noPcb
  else if io.payloadLen<4 then .refused .icmp .short
  else if sum6 ip6 p 58 io.payloadLen io.payloadLen≠0 then .refused .icmp .cksum
  else if p 0 &&& 0x80=0 then errorArrived io p
  else if p 0≠128 ∧ p 0≠129 then .refused .icmp .noPcb
  else if io.payloadLen<8 then .refused .icmp .short
  else if p 0=129 then {Answer.given .icmp 0 with user := true}
  else if cap < io.payloadLen then .refused .icmp .noPcb
  else {Answer.given .icmp 0 with send := true,outLen := io.payloadLen}

/-- An ICMPv6 message, `d_icmp6`. -/
def dIcmp6 (out : Option ℕ) : Answer :=
  if 4 ≤ io.payloadLen ∧ (icmp6IsNd (p 0) || icmp6IsMld (p 0)) then dIcmp6Nd io ip6 p
  else if !k.icmp6In then .refused .icmp .unbound
  else match out with
    | none => {Answer.refused .icmp .none with busy := true}
    | some cap =>
      if cap<60 then {Answer.refused .icmp .none with busy := true} else icmp6InRecv k io ip6 p cap

/-- What the transports answer to the payload of an IPv6 packet. -/
def Transports.answer (cfg : Config) (u : Upper) (a : InputArgs) : Answer :=
  let frame := a.frame.getD .zero
  let ip6 := frame.drop io.ipOff
  let p := frame.drop io.payloadOff
  match u with
  | .icmp6 => dIcmp6 k io ip6 p a.out
  | .udp => Udp.dUdp (Udp.datagramOf io frame) cfg k.udp false
  | .udplite => Udp.dUdp (Udp.datagramOf io frame) cfg k.udp true
  | .raw => dRaw k io ip6 p
  | .icmp4 | .igmp => .refused .none .none

/-- An environment with these transports over IPv6, and its own over IPv4. -/
def Transports.env (cfg : Config) (e : Env) : Env :=
  {e with upper := fun u io a => if io.ipVersion=6 then k.answer io cfg u a else e.upper u io a}

/-- A raw binding takes a payload: one is found, and a checksum it asks for is there and holds. -/
def rawTakes : Bool :=
  k.rawPcb && (k.rawFind (ip6.drop 24) (ip6.drop 8) io.proto io.netif).any fun b =>
    b.2.all fun off => off+2 ≤ io.payloadLen && sum6 ip6 p io.proto io.payloadLen io.payloadLen==0

/-- A UDP or UDP-Lite binding takes a datagram: the bindings are asked about it, and one admits it. -/
def udpTakes (cfg : Config) (k : Udp.Units) (d : Udp.Datagram) (lite : Bool) : Bool :=
  (Udp.asked d k lite).any fun q => (List.range cfg.udpPcbs).any fun j => UdpPcb.admits (q.1.entry j) q.2

/-- A message of Neighbor or Multicast Listener Discovery is in order. -/
def ndTakes : Bool :=
  let mld := icmp6IsMld (p 0)
  let hdrLen := if mld then 24 else ndHdrLen (p 0)
  !(icmp6IsNd (p 0) && (ip6 7 != 255 || p 1 != 0)) && sum6 ip6 p 58 io.payloadLen io.payloadLen==0 &&
    hdrLen ≤ io.payloadLen && (mld || ndOptsOk (io.payloadLen-hdrLen) (p.drop hdrLen) (io.payloadLen-hdrLen))

/-- A message of another type has a taker: an error that quotes a protocol, an Echo Reply, or a Request with room to
answer. -/
def echoTakes (cap : ℕ) : Bool :=
  if p 0 &&& 0x80=0 then
    8 ≤ io.payloadLen && 40 ≤ io.payloadLen-8 && (Ip6.walk (p.drop 8) (io.payloadLen-8)).ok && (Ip6.walk (p.drop 8) (io.payloadLen-8)).nextHdr != 59
  else (p 0==128 || p 0==129) && 8 ≤ io.payloadLen && (p 0==129 || io.payloadLen≤cap)

/-- An ICMPv6 message is taken. -/
def icmp6Takes (out : Option ℕ) : Bool :=
  if 4 ≤ io.payloadLen && (icmp6IsNd (p 0) || icmp6IsMld (p 0)) then ndTakes io ip6 p
  else k.icmp6In && out.any fun cap => 60≤cap && k.ifAddr io.netif && 4 ≤ io.payloadLen &&
    sum6 ip6 p 58 io.payloadLen io.payloadLen==0 && echoTakes io p cap

/-- An answer that delivers or replies. -/
def Answer.loud (r : Answer) : Bool := r.deliver || r.send

/-- A test that refuses stands in front of the rest. -/
theorem Answer.loud_ite {c : Prop} [Decidable c] {r t : Answer} (hr : r.loud=false) :
    (if c then r else t).loud=(!decide c && t.loud) := by
  split_ifs with h
  · rw [decide_eq_true h,hr]
    rfl
  · rw [decide_eq_false h]
    rfl

theorem dRaw_loud : (dRaw k io ip6 p).loud=rawTakes k io ip6 p := by
  unfold dRaw rawTakes
  rw [Answer.loud_ite rfl]
  cases k.rawFind (ip6.drop 24) (ip6.drop 8) io.proto io.netif with
  | none => cases k.rawPcb <;> rfl
  | some b =>
    obtain ⟨row,_|off⟩ := b
    · cases k.rawPcb <;> rfl
    · dsimp only
      rw [Answer.loud_ite rfl,Bool.eq_iff_iff]
      simp [Answer.given,Answer.loud]

theorem dUdp_loud (cfg : Config) (k : Udp.Units) (d : Udp.Datagram) (lite : Bool) :
    (Udp.dUdp d cfg k lite).loud=udpTakes cfg k d lite := by
  unfold udpTakes
  rcases Udp.dUdp_spec d cfg k lite with ⟨⟨why,hw⟩,hn⟩|⟨u,f,best,-,ha,hl,hg⟩
  · rw [hw]
    cases ha : Udp.asked d k lite with
    | none => rfl
    | some q =>
      refine (List.any_eq_false.2 fun j hj => ?_).symm
      exact hn q.1 q.2 ha j (List.mem_range.1 hj)
  · rw [hg,ha]
    exact (List.any_eq_true.2 ⟨best,List.mem_range.2 hl.lt,hl.admits⟩).symm

theorem dIcmp6Nd_loud : (dIcmp6Nd io ip6 p).loud=ndTakes io ip6 p := by
  unfold dIcmp6Nd ndTakes
  dsimp only
  rw [Answer.loud_ite rfl,Answer.loud_ite rfl,Answer.loud_ite rfl,Answer.loud_ite rfl,Bool.eq_iff_iff]
  simp [Answer.given,Answer.loud,and_assoc]

theorem icmp6InRecv_loud (cap : ℕ) : (icmp6InRecv k io ip6 p cap).loud=(k.ifAddr io.netif && 4 ≤ io.payloadLen &&
      sum6 ip6 p 58 io.payloadLen io.payloadLen==0 && echoTakes io p cap) := by
  unfold icmp6InRecv echoTakes
  rw [Answer.loud_ite rfl,Answer.loud_ite rfl,Answer.loud_ite rfl]
  by_cases h8 : p 0 &&& 0x80=0
  · rw [if_pos h8,if_pos h8]
    unfold errorArrived
    dsimp only
    rw [Answer.loud_ite rfl,Answer.loud_ite rfl,Answer.loud_ite rfl,Bool.eq_iff_iff]
    simp [Answer.given,Answer.loud,and_assoc]
  · rw [if_neg h8,if_neg h8,Answer.loud_ite rfl,Answer.loud_ite rfl,Bool.eq_iff_iff]
    by_cases h9 : p 0=129
    · simp [h9,Answer.given,Answer.loud,and_assoc]
    · rw [if_neg h9,Answer.loud_ite rfl]
      simp [Answer.given,Answer.loud,and_assoc]
      exact fun _ _ _ _ _ h => absurd h h9

theorem dIcmp6_loud (out : Option ℕ) : (dIcmp6 k io ip6 p out).loud=icmp6Takes k io ip6 p out := by
  unfold dIcmp6 icmp6Takes
  by_cases hn : 4 ≤ io.payloadLen ∧ (icmp6IsNd (p 0) || icmp6IsMld (p 0))
  · rw [if_pos hn,if_pos (by simpa using hn)]
    exact dIcmp6Nd_loud io ip6 p
  · have hb : ¬(4 ≤ io.payloadLen && (icmp6IsNd (p 0) || icmp6IsMld (p 0)))=true := by simpa using hn
    rw [if_neg hn,Answer.loud_ite rfl,if_neg hb]
    cases out with
    | none => cases k.icmp6In <;> rfl
    | some cap =>
      dsimp only
      rw [Answer.loud_ite rfl,icmp6InRecv_loud,Bool.eq_iff_iff]
      simp [and_assoc]

/-- Whether a transport beside TCP takes a payload that came over IPv6. -/
def Transports.takes (cfg : Config) (u : Upper) (a : InputArgs) : Bool :=
  let frame := a.frame.getD .zero
  let ip6 := frame.drop io.ipOff
  let p := frame.drop io.payloadOff
  match u with
  | .icmp6 => icmp6Takes k io ip6 p a.out
  | .udp => udpTakes cfg k.udp (Udp.datagramOf io frame) false
  | .udplite => udpTakes cfg k.udp (Udp.datagramOf io frame) true
  | .raw => rawTakes k io ip6 p
  | .icmp4 | .igmp => false

theorem Transports.answer_loud (cfg : Config) (u : Upper) (a : InputArgs) : (k.answer io cfg u a).loud=k.takes io cfg u a := by
  cases u with
  | icmp4 => rfl
  | igmp => rfl
  | icmp6 => exact dIcmp6_loud k io _ _ a.out
  | udp => exact dUdp_loud cfg k.udp _ false
  | udplite => exact dUdp_loud cfg k.udp _ true
  | raw => exact dRaw_loud k io _ _

end Transports

section Tcp

variable (cfg : Config) (s : Side) (a : InputArgs) (fr lip rip : Octets) (ver : ℕ)

/-- The machine reads a segment: its header fits, its checksum holds and its options close. -/
def readable : Bool :=
  s.tcpIn.ctx.ready && intact (segOf s fr) lip rip (BitVec.ofNat 16 s.io.payloadLen) ver &&
    !(readOpts (segOf s fr)).2

/-- A listener has room for one more connection: a row is free, and its backlog is not full. -/
def roomFor (t : TcpPcb.Tables) (l : ℕ) : Bool :=
  (firstIndex cfg.tcpPcbs fun i => !(t.tcb i).inUse).any fun i =>
    l==noneIndex || synReceivedOn cfg t l i < (t.listener l).backlog

/-- Whether a segment for no connection is answered: not a reset; by a listener, an ACK or a SYN it has room for. -/
def strangerAnswers : Bool :=
  let flags := (header (segOf s fr)).flags
  !hasBit flags tcpRst && match listenerOf cfg s fr lip rip ver with
    | none => true
    | some l => hasBit flags tcpAck || hasBit flags tcpSyn && roomFor cfg s.tcpPcb.tab l

/-- Whether the TCP path delivers of a segment, or answers it. -/
def tcpAnswers : Bool :=
  s.tcpPcbBound && s.tcpInBound && 20 ≤ s.io.payloadLen && readable s fr lip rip ver &&
    match connOf cfg s fr lip rip ver with
    | some i => answers cfg (enteredAt s a fr lip rip ver i)
    | none => strangerAnswers cfg s fr lip rip ver

theorem runIn_speaks (w : TcpIn.Work) : speaks (runIn cfg w).io=answers cfg w := by
  unfold runIn answers
  cases hr : w.ctx.ready with
  | false =>
    split_ifs
    · simp [synSent,hr]
      rfl
    · simp [closed,hr]
      rfl
    · simp [TcpIn.segment,hr]
      rfl
  | true =>
    cases hs : w.io.state
    case synSent => simpa using synSent_speaks cfg hr hs
    case closed => simpa using closed_speaks hr
    case listen =>
      simp [TcpIn.segment,hr,hs,TcpState.rank]
      rfl
    all_goals simpa using segment_speaks cfg hr (by rw [hs]; decide)

theorem parsedBy_status (sndScale : BitVec 8) :
    (parsedBy s fr lip rip ver sndScale).io.status=.ok ↔ readable s fr lip rip ver := by
  unfold parsedBy parse parseArgs readable
  dsimp only
  split_ifs with hr hi ho <;> simp_all [unread]

variable {s} in
theorem dTcpReply_loud (i : ℕ) : (dTcpReply cfg s i).io.loud=(s.io.act.deliver || s.io.act.send || s.io.act.ackOwed ||
      s.tcpIn.io.res.act.ack || s.tcpIn.io.res.act.rst) := by
  unfold dTcpReply Io.loud
  dsimp only
  split_ifs <;> simp_all

variable {s} in
/-- A segment for a connection is loud exactly if its machine speaks. -/
theorem dTcpSegment_loud (i : ℕ) (h : s.io.loud=false) : (dTcpSegment cfg s a i).io.loud=speaks (machineOf cfg s a).io := by
  obtain ⟨w,ring,act,pcbRow,-,he,hd,ho,hs,-⟩ := placeText_placed
  simp only [Io.loud,Bool.or_eq_false_iff] at h
  rw [dTcpSegment_eq,dTcpReply_loud]
  unfold dTcpStore
  rw [he]
  dsimp only
  rw [hd,ho,hs,h.1.1.1.1,h.1.1.1.2,h.1.1.2]
  unfold speaks
  have hm : (reported cfg s a i).tcpIn=machineOf cfg s a := rfl
  rw [hm]
  generalize (machineOf cfg s a).io.res.act=t
  cases t.text <;> cases t.ack <;> cases t.rst <;> rfl

variable {s} in
/-- Without a listener every segment but a reset is answered with one. -/
theorem dTcpClosed_loud (hr : s.tcpIn.ctx.ready) (h : s.io.loud=false) :
    (dTcpClosed s a).io.loud= !hasBit s.tcpIn.io.seg.flags tcpRst := by
  simp only [Io.loud,Bool.or_eq_false_iff] at h
  unfold dTcpClosed closed Io.loud
  dsimp only
  rw [if_pos hr]
  cases hasBit s.tcpIn.io.seg.flags tcpRst <;> simp [Io.dropped,h,begun,opened,resultClear,putRst,TcpIn.Act.none]

/-- The connections a listener holds do not change with a row that is left out of the count. -/
theorem synReceivedOn_only {t u : TcpPcb.Tables} {l i : ℕ} (h : OnlyRow i t u) : synReceivedOn cfg u l i=synReceivedOn cfg t l i := by
  unfold synReceivedOn
  refine List.countP_congr fun j _ => ?_
  by_cases hj : j=i
  · simp [hj]
  · rw [h.tcb j hj]

variable {s} in
/-- A SYN that has a row is answered exactly if its listener's backlog is not full. -/
theorem dTcpAccept_loud {l i : ℕ} (lport rport : BitVec 16) (hr : s.tcpPcb.ready) (hi : i < cfg.tcpPcbs)
    (hu : (s.tcpPcb.tab.tcb i).inUse) (hl : l < cfg.tcpListenPcbs) (hlu : (s.tcpPcb.tab.listener l).inUse)
    (hd : s.io.act.deliver=false ∧ s.io.act.send=false ∧ s.io.act.ackOwed=false) (ha : s.io.tcpAct.ack) {t : TcpPcb.Tables}
    (ht : OnlyRow i t s.tcpPcb.tab) : (dTcpAccept cfg s l i lip rip lport rport).io.loud=
      (l==noneIndex || synReceivedOn cfg t l i < (t.listener l).backlog) := by
  have hn : Edits i s.tcpPcb (nameTcb cfg s i lip rip lport rport) :=
    (bind_edits cfg s.tcpPcb ⟨some lip,s.bindRand,i,lport,0,s.io.netif⟩).trans
      (connect_edits cfg _ ⟨some rip,0,i,rport,0,s.io.netif⟩)
  have hot := ht.trans hn.only
  unfold dTcpAccept
  generalize nameTcb cfg s i lip rip lport rport=n at *
  have hst : (TcpPcb.accept cfg n i l).io.status=.ok ↔ l=noneIndex ∨ synReceivedOn cfg t l i < (t.listener l).backlog := by
    unfold TcpPcb.accept
    dsimp only
    rw [if_neg (by simp [hn.ready,hr,hi]),if_neg (by simp [hn.row.inUse,hu]),hot.listener,synReceivedOn_only cfg hot,
      if_neg (by simp [hl,←ht.listener,hlu])]
    by_cases hb : l≠noneIndex ∧ (t.listener l).backlog ≤ synReceivedOn cfg t l i
    · rw [if_pos hb]
      refine iff_of_false (by simp [Work.status]) ?_
      rw [not_or,not_lt]
      exact hb
    · rw [if_neg hb]
      refine iff_of_true rfl ?_
      rw [not_and_or,not_not,not_le] at hb
      exact hb
  by_cases hok : (TcpPcb.accept cfg n i l).io.status=.ok
  · rw [if_neg (not_not.2 hok)]
    refine Eq.trans (b := true) ?_ (Eq.symm ?_)
    · simp [Io.loud,dTcpStore,ha]
    · simpa using hst.1 hok
  · rw [if_pos hok]
    refine Eq.trans (b := false) ?_ (Eq.symm ?_)
    · simp [Io.loud,dTcpRefuse,Io.dropped,TcpIn.Act.none,hd]
    · simpa [not_or] using hst.not.1 hok

variable {s} in
/-- A listener answers an ACK with a reset, and a SYN it has room for. -/
theorem dTcpListen_loud {l : ℕ} (lport rport : BitVec 16) (hc : s.tcpIn.ctx.ready) (hr : s.tcpPcb.ready)
    (hv : addrBytes ver≠0) (hl : l < cfg.tcpListenPcbs) (hlu : (s.tcpPcb.tab.listener l).inUse) (h : s.io.loud=false) :
    (dTcpListen cfg s a l lip rip lport rport ver).io.loud=(!hasBit s.tcpIn.io.seg.flags tcpRst &&
      (hasBit s.tcpIn.io.seg.flags tcpAck || hasBit s.tcpIn.io.seg.flags tcpSyn && roomFor cfg s.tcpPcb.tab l)) := by
  simp only [Io.loud,Bool.or_eq_false_iff] at h
  unfold dTcpListen
  dsimp only
  cases hR : hasBit s.tcpIn.io.seg.flags tcpRst with
  | true => simp [listenRun,TcpIn.listen,dTcpLoadIn,hc,hR,begun,opened,resultClear,Io.loud,Io.dropped,TcpIn.Act.none,h]
  | false =>
  cases hA : hasBit s.tcpIn.io.seg.flags tcpAck with
  | true => simp [listenRun,TcpIn.listen,dTcpLoadIn,hc,hR,hA,begun,opened,resultClear,putAckRst,Io.loud,Io.dropped]
  | false =>
  cases hS : hasBit s.tcpIn.io.seg.flags tcpSyn with
  | false => simp [listenRun,TcpIn.listen,dTcpLoadIn,hc,hR,hA,hS,begun,opened,resultClear,Io.loud,Io.dropped,TcpIn.Act.none,h]
  | true =>
    have hst : (listenRun s a l).tcpIn.io.state=.synReceived := by
      simp [listenRun,TcpIn.listen,dTcpLoadIn,hc,hR,hA,hS,putSynAck]
    have hack : (listenRun s a l).io.tcpAct.ack=true := by
      simp [listenRun,TcpIn.listen,dTcpLoadIn,hc,hR,hA,hS,putSynAck]
    have hio : (listenRun s a l).io.act.deliver=false ∧ (listenRun s a l).io.act.send=false ∧ (listenRun s a l).io.act.ackOwed=false :=
      ⟨h.1.1.1.1,h.1.1.1.2,h.1.1.2⟩
    have htp : (listenRun s a l).tcpPcb=s.tcpPcb := rfl
    rw [if_neg (not_not.2 hst),htp]
    unfold roomFor
    cases hf : firstIndex cfg.tcpPcbs fun i => !(s.tcpPcb.tab.tcb i).inUse with
    | none =>
      have hop : openTcb cfg s.tcpPcb ver=s.tcpPcb.noIndex .busy := by
        unfold openTcb
        rw [if_neg (by simp [hr]),if_neg hv,hf]
      rw [hop]
      simp [TcpPcb.Work.noIndex,Io.loud,dTcpRefuse,Io.dropped,TcpIn.Act.none,hio]
    | some i =>
      have hop : openTcb cfg s.tcpPcb ver=
          s.tcpPcb.took (s.tcpPcb.tab.setTcb i (TcpPcb.Tcb.opened cfg ver)) i := by
        unfold openTcb
        rw [if_neg (by simp [hr]),if_neg hv,hf]
      rw [hop,if_neg (by simp [TcpPcb.Work.took])]
      generalize hu : ({listenRun s a l with
        tcpPcb := s.tcpPcb.took (s.tcpPcb.tab.setTcb i (TcpPcb.Tcb.opened cfg ver)) i} : Side)=u
      have hrow : (u.tcpPcb.tab.tcb i).inUse := by simp [←hu,TcpPcb.Work.took,TcpPcb.Tcb.opened]
      have hk := dTcpAccept_loud cfg lip rip lport rport (l := l) (t := s.tcpPcb.tab) (by rw [←hu]; exact hr)
        (firstIndex_some.1 hf).2.1 hrow hl (by rw [←hu]; exact hlu) (by rw [←hu]; exact hio) (by rw [←hu]; exact hack)
        (by rw [←hu]; exact OnlyRow.setTcb i s.tcpPcb.tab _)
      simpa [TcpPcb.Work.took] using hk

theorem foundListener_bytes {w : TcpPcb.Work} {f : TcpPcb.FindArgs} {lip : Octets} {l : ℕ} (h : foundListener cfg w f lip=some l) :
    addrBytes f.ipVersion≠0 := by
  unfold foundListener at h
  dsimp only at h
  split_ifs at h with hg
  have hg' : w.ready ∧ addrBytes f.ipVersion≠0 := by simpa using hg
  exact hg'.2

theorem dTcpUnknown_eq (t : TcpPcb.Work) (listener : Option ℕ) :
    dTcpUnknown cfg {s with tcpPcb := t} a listener (segOf s fr) lip rip ver=
      let u := {s with tcpPcb := t,tcpIn := parsedBy s fr lip rip ver 0}
      if u.tcpIn.io.status≠.ok then u.drop .short
      else match listener with
        | none => dTcpClosed u a
        | some l => dTcpListen cfg u a l lip rip (header (segOf s fr)).dstPort (header (segOf s fr)).srcPort ver :=
  rfl

/-- The TCP path delivers of a segment, or answers it, exactly if the tests of `tcpAnswers` say so. -/
theorem dTcp_loud (h : s.io.loud=false) : (dTcp cfg s a fr lip rip ver).io.loud= tcpAnswers cfg s a fr lip rip ver := by
  unfold tcpAnswers
  by_cases hb : (!s.tcpPcbBound || !s.tcpInBound)
  · unfold dTcp
    rw [if_pos hb]
    refine h.trans (Eq.symm ?_)
    cases hp : s.tcpPcbBound <;> cases hi : s.tcpInBound <;> simp_all
  by_cases hln : s.io.payloadLen<20
  · unfold dTcp
    rw [if_neg hb,if_pos hln]
    refine h.trans (Eq.symm ?_)
    rw [decide_eq_false (not_le.2 hln),Bool.and_false]
    rfl
  have hgd : (s.tcpPcbBound && s.tcpInBound && 20 ≤ s.io.payloadLen)=true := by simpa using ⟨by simpa using hb,not_lt.1 hln⟩
  rw [hgd,Bool.true_and,dTcp_eq cfg s a fr lip rip ver (Bool.eq_false_iff.2 hb) hln]
  have hst := parsedBy_status s fr lip rip ver
  cases hrd : readable s fr lip rip ver with
  | false =>
    have hno : ∀ scale,(parsedBy s fr lip rip ver scale).io.status≠.ok := fun scale hok => by
      rw [(hst scale).1 hok] at hrd
      cases hrd
    cases hc : connOf cfg s fr lip rip ver with
    | some i =>
      dsimp only
      rw [dTcpKnown_eq cfg s a fr lip rip ver hc,if_pos (hno _)]
      exact h
    | none =>
      dsimp only
      rw [dTcpUnknown_eq]
      dsimp only
      rw [if_pos (hno 0)]
      exact h
  | true =>
    have hok : ∀ scale,(parsedBy s fr lip rip ver scale).io.status=.ok := fun scale => (hst scale).2 hrd
    cases hc : connOf cfg s fr lip rip ver with
    | some i =>
      dsimp only
      rw [dTcpKnown_eq cfg s a fr lip rip ver hc,if_neg (not_not.2 (hok _)),dTcpSegment_loud cfg a i (by exact h),
        machineOf_loadedAt hc,runIn_speaks]
      rfl
    | none =>
      have hfl := parsedBy_flags s fr lip rip ver (hok 0)
      have hrdy : (parsedBy s fr lip rip ver 0).ctx.ready := by
        obtain ⟨seg,opts,st,hf⟩ := parse_frame (w := s.tcpIn) (a := parseArgs s (segOf s fr) lip rip ver 0)
        simp only [readable,Bool.and_eq_true] at hrd
        rw [parsedBy,hf]
        exact hrd.1.1
      unfold strangerAnswers
      dsimp only
      rw [dTcpUnknown_eq]
      dsimp only
      rw [if_neg (not_not.2 (hok 0)),←hfl]
      cases hl : listenerOf cfg s fr lip rip ver with
      | none =>
        dsimp only
        rw [dTcpClosed_loud a (by exact hrdy) (by exact h),Bool.and_true]
        rfl
      | some l =>
        obtain ⟨hr,hlt,hu,-⟩ := foundListener_some cfg hl
        exact dTcpListen_loud cfg a lip rip ver _ _ hrdy hr (foundListener_bytes cfg hl) hlt hu h

end Tcp

section Source

variable (e : Env) (b : Bound) (netif : ℕ)

/-- A source an IPv4 datagram on an interface may not have: multicast, or loopback off the loopback interface. -/
def barred4 (src : BitVec 32) : Bool :=
  ip4AddrType src==.multicast || (ip4AddrType src==.loopback && !onLoopback e b netif)

/-- The same of an IPv6 packet. -/
def barred6 (src : Octets) : Bool :=
  ip6AddrType src==.multicast || (ip6AddrType src==.loopback && !onLoopback e b netif)

/-- Whether a frame carries a datagram of either family with such a source. -/
def barred (a : InputArgs) : Bool :=
  match a.frame with
  | none => false
  | some frame =>
    match Vlan.parse frame a.len with
    | none => false
    | some v =>
      if v.type=0x0800 then barred4 e b a.netif (Ip4.src (frame.drop v.payloadOff))
      else if v.type=0x86DD then barred6 e b a.netif ((frame.drop v.payloadOff).drop 8)
      else false

/-- `d_ip4_src_invalid` bars every such source. -/
theorem barred4_invalid {src : BitVec 32} (h : barred4 e b netif src=true) : dIp4SrcInvalid e b netif src=true := by
  unfold barred4 at h
  unfold dIp4SrcInvalid
  cases ht : ip4AddrType src with
  | multicast => rfl
  | broadcast => rfl
  | loopback => simpa [ht] using h
  | _ => simp [ht] at h

/-- So no barred datagram gets to a protocol over IPv4. -/
theorem payload4_barred {s : Stack} {ip4 : Octets} {avail : ℕ} (h : barred4 e s.bound s.side.io.netif (Ip4.src ip4)=true) :
    payload4 e s ip4 avail=none := by
  have hi : dIp4SrcInvalid e s.bound s.side.io.netif (Ip4.src ip4)=true := barred4_invalid e s.bound _ h
  unfold payload4
  rw [if_pos (by simp [hi])]

end Source

section Route

variable (cfg : Config) (k : Transports) (e : Env) (s : Stack) (a : InputArgs)

/-- Whether the transport a payload is for takes it or answers it. -/
def takes (io : Io) : Bool :=
  let r := arrivalAt (a.frame.getD .zero) io
  if io.proto=6 then tcpAnswers cfg {s.side with io := io} a r.frame r.lip r.rip r.ipVersion
  else k.takes io cfg (upperOf io.ipVersion io.proto) a

/-- Whether a frame gets to its transport and is taken or answered there. -/
def admitted : Bool := (payloadOf cfg e s a).any (takes cfg k s a)

/-- A barred frame that gets to a protocol came over IPv6. -/
theorem payloadOf_barred {io : Io} (hb : barred e s.bound a=true) (h : payloadOf cfg e s a=some io) : io.ipVersion=6 := by
  unfold payloadOf at h
  unfold barred at hb
  cases hf : a.frame with
  | none => simp [hf] at h
  | some frame =>
    simp only [hf] at h hb
    split_ifs at h
    have hr : _ ∨ (dLink (entered s a) a frame).2=none ∧ Off cfg (entered s a) a.netif a _ ∧ _ := dLink_route (entered_clean s a)
    rcases hr with ⟨v,hv,hl⟩|⟨hl,-⟩
    · simp only [hl] at h
      rw [hv] at hb
      unfold payloadNet at h
      dsimp only at h hb
      by_cases h4 : v.type=0x0800
      · rw [if_pos h4] at hb
        rw [if_pos (by exact h4),payload4_barred e (by exact hb)] at h
        cases h
      · rw [if_neg (by exact h4)] at h
        split_ifs at h
        unfold payload6 at h
        dsimp only at h
        split_ifs at h
        cases h
        rfl
    · simp [hl] at h

theorem barred_not_arp (hb : barred e s.bound a=true) : ¬ArpFrame a := by
  rintro ⟨fr,v,hf,hv,ht⟩
  unfold barred at hb
  simp [hf,hv,ht] at hb

/-- The answer of a transport decides how loud the report of a payload is. -/
theorem answered_loud (io : Io) {r : Answer} (h : io.loud=false) : (io.answered r).loud=r.loud := by
  simp only [Io.loud,Bool.or_eq_false_iff] at h
  simp [Io.loud,Io.answered,Answer.loud,h]

theorem takes_errPtr (io : Io) (ptr : ℕ) (u : Upper) : k.takes {io with errPtr := ptr} cfg u a=k.takes io cfg u a := by
  cases u with
  | udp =>
    unfold Transports.takes udpTakes
    dsimp only
    rw [Udp.asked_errPtr]
  | udplite =>
    unfold Transports.takes udpTakes
    dsimp only
    rw [Udp.asked_errPtr]
  | _ => rfl

/-- A frame with a barred source is delivered or answered exactly when its transport, over IPv6, takes or answers it. -/
theorem input_barred (hb : barred e s.bound a=true) : (input cfg (k.env cfg e) s a).side.io.loud=admitted cfg k e s a := by
  have hp : payloadOf cfg (k.env cfg e) s a=payloadOf cfg e s a := rfl
  unfold admitted
  rcases input_routes cfg (k.env cfg e) s a with ⟨io,ptr,hio,hc,ht,hu⟩|⟨hn,-,-,ha|hq⟩
  · rw [hp] at hio
    have h6 := payloadOf_barred cfg e s a hb hio
    have hq : io.loud=false := hc.quiet
    rw [hu,hio]
    show _=takes cfg k s a io
    unfold passed takes
    by_cases htcp : io.proto=6
    · rw [ht htcp,if_pos (by exact htcp),if_pos htcp,handed_side]
      have hi := (arrivalAt_parts (a.frame.getD .zero) io).1
      rw [dTcp_loud cfg _ a _ _ _ _ (by rw [Stack.facing,hi]; exact hq),Stack.facing,hi]
    · rw [if_neg (by exact htcp),if_neg htcp,←takes_errPtr cfg k a io ptr,←k.answer_loud]
      refine Eq.trans (answered_loud {io with errPtr := ptr} hq) (congrArg Answer.loud (if_pos h6))
  · exact absurd ha (barred_not_arp e s a hb)
  · rw [hp] at hn
    rw [hn,hq]
    rfl

/-- No frame with a barred source is delivered or answered, except over IPv6 one its transport takes or answers. -/
theorem barred_quiet_iff : (barred e s.bound a=true → (input cfg (k.env cfg e) s a).side.io.loud=false) ↔
      ¬(barred e s.bound a=true ∧ admitted cfg k e s a=true) := by
  rw [not_and,Bool.not_eq_true]
  exact forall_congr' fun hb => by rw [input_barred cfg k e s a hb]

end Route

/-- A host that answers ICMPv6 and has no other transport. -/
def Transports.echoer : Transports := ⟨⟨none,none⟩,false,true,fun _ _ _ _ => none,fun _ => true⟩

/-- An Echo Request from the all-nodes group. -/
def groupEcho : InputArgs :=
  ⟨some (.ofList (List.replicate 12 0++[0x86,0xDD,0x60,0,0,0,0,8,58,64,0xFF,2]++List.replicate 13 0++[1]++
    List.replicate 16 0x20++[128,0,0x7F,0xB8,0,0,0,0])),62,some 1500,0,0,0,0⟩

/-- It is delivered and a reply is built, to the group. -/
theorem groupEcho_answered :
    let u := input .shipped (Transports.echoer.env .shipped .everyone) Stack.booted groupEcho
    barred .everyone Stack.booted.bound groupEcho=true ∧ u.side.io.act.deliver=true ∧ u.side.io.act.send=true := by
  decide +kernel

end IdemIp.Dispatch
