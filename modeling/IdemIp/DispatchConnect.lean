import IdemIp.DispatchEffects
import IdemIp.TcpInText

/-!
# Connections a listener makes

A SYN for a listener takes a row, names it, charges it to the listener and stores
SYN-RECEIVED. Neither `bind` nor `connect` is asked how it went, and the image
stored is a copy of whichever connection was read or written last. A listener's
SYN-RECEIVED taken back stores LISTEN in the row.
-/

namespace IdemIp.Dispatch

open StepRun TcpIn
open TcpPcb (ListenersNamed NoListen SameStates)

/-- Everything behind one connection a frame makes. -/
structure Created (cfg : Config) (e : Env) (s : Stack) (a : InputArgs) (i : ℕ) (r : Arrival) (l : ℕ) : Prop where
  /-- The frame brought a segment to TCP. -/
  arrival : arrival cfg e s a=some r
  unknown : connOf cfg (s.facing r) r.frame r.lip r.rip r.ipVersion=none
  listener : listenerOf cfg (s.facing r) r.frame r.lip r.rip r.ipVersion=some l
  parsed : (parsedBy (s.facing r) r.frame r.lip r.rip r.ipVersion 0).io.status=.ok
  syn : freshSyn (TcpIn.header r.seg).flags
  /-- The row was taken in front of the name. -/
  opened : (openedAt cfg (s.facing r) a r.frame r.lip r.rip r.ipVersion l).tcpPcb=
    (listenedAt (s.facing r) r.frame r.lip r.rip r.ipVersion l).tcpPcb.took
      (s.tab.setTcb i (TcpPcb.Tcb.opened cfg r.ipVersion)) i
  only : OnlyRow i s.tab (input cfg e s a).tab
  /-- The row is the named one with the machine's image. -/
  row : (input cfg e s a).tab.tcb i=madeRow
    ((nameTcb cfg (openedAt cfg (s.facing r) a r.frame r.lip r.rip r.ipVersion l) i r.lip r.rip
      (TcpIn.header r.seg).dstPort (TcpIn.header r.seg).srcPort).tab.tcb i) l
    (openedAt cfg (s.facing r) a r.frame r.lip r.rip r.ipVersion l).tcpIn.io
  ready : (input cfg e s a).side.tcpPcb.ready
  reply : (input cfg e s a).side.io.reply=
    (openedAt cfg (s.facing r) a r.frame r.lip r.rip r.ipVersion l).tcpIn.io.reply

section Create

variable {cfg : Config} {e : Env} {s : Stack} {a : InputArgs} {i : ℕ}

variable {t : Side} {lip rip : Octets}

theorem dTcpSegment_inUse {fr : Octets} {ver j : ℕ} (hj : segmentOf cfg t fr lip rip ver=some j) (k : ℕ) :
    ((dTcpSegment cfg (loadedAt cfg t fr lip rip ver j) a j).tcpPcb.tab.tcb k).inUse= (t.tcpPcb.tab.tcb k).inUse := by
  obtain ⟨hc,-⟩ := segmentOf_some hj
  have htp := loadedAt_tcpPcb cfg hc
  obtain ⟨w,hw,he⟩ := (dTcpSegment_ran cfg (loadedAt cfg t fr lip rip ver j) a j).tcpPcb
  have hs := hw.sameStates.1
  rw [htp] at hs
  rw [he,TcpPcb.store_inUse]
  exact (hs.row k).1

theorem input_created (hfree : (s.tab.tcb i).inUse=false) (huse : ((input cfg e s a).tab.tcb i).inUse) :
    ∃ r l,Created cfg e s a i r l := by
  rcases input_route cfg e s a with ⟨r,hr,hd⟩|⟨hr,hd⟩
  · have hside : (input cfg e s a).side=dTcp cfg (s.facing r) a r.frame r.lip r.rip r.ipVersion := by
      rw [hd,handed_side]
    have huse' : ((dTcp cfg (s.facing r) a r.frame r.lip r.rip r.ipVersion).tcpPcb.tab.tcb i).inUse := by
      rw [←hside]
      exact huse
    have hroute := dTcp_route cfg (s.facing r) a r.frame r.lip r.rip r.ipVersion
    generalize dTcp cfg (s.facing r) a r.frame r.lip r.rip r.ipVersion=u at hroute huse' hside
    cases hroute with
    | ends tp ti io htab hready hk hdel hf =>
      rw [htab] at huse'
      exact absurd (hfree.symm.trans huse') (by simp)
    | segment j hj =>
      rw [dTcpSegment_inUse hj] at huse'
      exact absurd (hfree.symm.trans huse') (by simp)
    | syn l j hc hl hp hsyn hlt hjfree hopen =>
      have hseg : segOf (s.facing r) r.frame=r.seg := rfl
      rw [hseg] at huse' hside
      rcases openedAt_accept cfg hl hlt hopen (header r.seg).dstPort (header r.seg).srcPort with
        ⟨tp,ti,io,he,hready,ho,hz,-,-⟩ | ⟨tp,ti,he,hready,ho,hrow,-⟩
      · by_cases hij : i=j
        · subst hij
          rw [he] at huse'
          exact absurd ((congrArg TcpPcb.Tcb.inUse hz).symm.trans huse') (by simp [TcpPcb.Tcb.zero])
        · rw [he] at huse'
          exact absurd (hfree.symm.trans ((congrArg TcpPcb.Tcb.inUse (ho.tcb i hij)).symm.trans huse')) (by simp)
      by_cases hij : i=j
      · subst hij
        rw [he] at hside
        refine ⟨r,l,hr,hc,hl,hp,hsyn,hopen,?_,?_,?_,?_⟩
        · show OnlyRow i s.tab (input cfg e s a).side.tcpPcb.tab
          rw [hside]
          exact ho
        · show (input cfg e s a).side.tcpPcb.tab.tcb i=_
          rw [hside]
          exact hrow
        · rw [hside]
          exact hready
        · rw [hside]
          rfl
      · rw [he] at huse'
        exact absurd (hfree.symm.trans ((congrArg TcpPcb.Tcb.inUse (ho.tcb i hij)).symm.trans huse')) (by simp)
  · obtain ⟨ring,io,ifRow,hs,-⟩ := hd.keeps
    have htab : (input cfg e s a).tab=s.tab := by
      show (input cfg e s a).side.tcpPcb.tab=_
      rw [hs]
      rfl
    rw [htab,hfree] at huse
    cases huse

/-- A fresh row with its local end named. -/
def boundRow (x : TcpPcb.Tcb) (localIp : Octets) (localPort : BitVec 16) (netif : ℕ) : TcpPcb.Tcb :=
  {x with
    localIp := localIp.padded (TcpPcb.addrBytes x.ipVersion)
    localPort := localPort
    localZone := 0
    netif := netif}

/-- A row with its remote end named too. -/
def connectedRow (x : TcpPcb.Tcb) (remoteIp : Octets) (remotePort : BitVec 16) : TcpPcb.Tcb :=
  {x with remoteIp := remoteIp.padded (TcpPcb.addrBytes x.ipVersion),remotePort := remotePort,remoteZone := 0}

/-- Whether `connect` refuses a remote end behind a local one. -/
def connectRefuses (cfg : Config) (t : TcpPcb.Tables) (i : ℕ) (remoteIp : Octets) (remotePort : BitVec 16) : Bool :=
  remotePort==0 || TcpPcb.remoteInvalid (t.tcb i).ipVersion remoteIp || TcpPcb.pairTaken cfg t i remoteIp remotePort

/-- `connect` names the remote end of a row that may be named, or refuses it. -/
theorem connect_tab {w : TcpPcb.Work} (rip : Octets) (rport : BitVec 16) (netif : ℕ) (hr : w.ready)
    (hi : i < cfg.tcpPcbs) (hn : TcpPcb.nameable (w.tab.tcb i)) : (TcpPcb.connect cfg w ⟨some rip,0,i,rport,0,netif⟩).tab=
      if connectRefuses cfg w.tab i rip rport then w.tab
      else w.tab.setTcb i (connectedRow (w.tab.tcb i) rip rport) := by
  unfold TcpPcb.connect connectRefuses
  dsimp only
  rw [if_neg (by simp [hr,hi]),if_neg (by simp [hn])]
  by_cases hp : rport=0
  · rw [if_pos hp,if_pos (by simp [hp])]
    rfl
  rw [if_neg hp]
  by_cases hv : TcpPcb.remoteInvalid (w.tab.tcb i).ipVersion rip
  · rw [if_pos hv,if_pos (by simp [hv])]
    rfl
  rw [if_neg hv]
  by_cases ht : TcpPcb.pairTaken cfg w.tab i rip rport
  · rw [if_pos ht,if_pos (by simp [ht])]
    rfl
  · rw [if_neg ht,if_neg (by simp [hv,ht]; exact hp)]
    rfl

/-- What naming leaves in the row: the local end always, the remote end unless it is refused. -/
theorem nameTcb_row {lport rport : BitVec 16}
    (hr : t.tcpPcb.ready) (hi : i < cfg.tcpPcbs) (hn : TcpPcb.nameable (t.tcpPcb.tab.tcb i)) (hp : lport≠0) :
    (nameTcb cfg t i lip rip lport rport).tab.tcb i=
      let x := boundRow (t.tcpPcb.tab.tcb i) lip lport t.io.netif
      if connectRefuses cfg (t.tcpPcb.tab.setTcb i x) i rip rport then x
      else connectedRow x rip rport := by
  have hb : TcpPcb.bind cfg t.tcpPcb ⟨some lip,t.bindRand,i,lport,0,t.io.netif⟩=
      TcpPcb.bound t.tcpPcb ⟨some lip,t.bindRand,i,lport,0,t.io.netif⟩ lip lport := by
    unfold TcpPcb.bind
    dsimp only
    rw [if_neg (by simp [hr,hi]),if_neg (by simp [hn]),if_pos hp]
  have ht : (TcpPcb.bound t.tcpPcb ⟨some lip,t.bindRand,i,lport,0,t.io.netif⟩ lip lport).tab=
      t.tcpPcb.tab.setTcb i (boundRow (t.tcpPcb.tab.tcb i) lip lport t.io.netif) := rfl
  unfold nameTcb
  rw [hb,connect_tab (w := TcpPcb.bound t.tcpPcb ⟨some lip,t.bindRand,i,lport,0,t.io.netif⟩ lip lport)
    rip rport t.io.netif hr hi (by rw [ht]; simpa [boundRow,TcpPcb.nameable] using hn),ht]
  dsimp only
  split_ifs <;> simp

/-- Whether a connection in use holds the ends of a segment; this reads neither the interface nor the zones. -/
def pairHeld (cfg : Config) (t : TcpPcb.Tables) (r : Arrival) : Bool :=
  (List.range cfg.tcpPcbs).any fun j =>
    (t.tcb j).inUse && (t.tcb j).ipVersion==r.ipVersion && (t.tcb j).localPort==(TcpIn.header r.seg).dstPort &&
      (t.tcb j).remotePort==(TcpIn.header r.seg).srcPort &&
      (t.tcb j).localIp.bytesEq r.lip (TcpPcb.addrBytes r.ipVersion) &&
      (t.tcb j).remoteIp.bytesEq r.rip (TcpPcb.addrBytes r.ipVersion)

variable {r : Arrival} {x : TcpPcb.Tcb}

/-- The scan of `connect` behind a fresh row asks the tables before. -/
theorem pairTaken_fresh {t : TcpPcb.Tables} (hfree : (t.tcb i).inUse=false)
    (hv : x.ipVersion=r.ipVersion) (hl : x.localIp=r.lip.padded (TcpPcb.addrBytes r.ipVersion))
    (hp : x.localPort=(TcpIn.header r.seg).dstPort) :
    TcpPcb.pairTaken cfg (t.setTcb i x) i r.rip (TcpIn.header r.seg).srcPort=pairHeld cfg t r := by
  unfold TcpPcb.pairTaken pairHeld
  congr 1
  funext j
  by_cases hj : j=i
  · subst hj
    simp [hfree]
  simp only [TcpPcb.Tables.setTcb_tcb,if_neg hj,if_true,TcpPcb.holdsPair,hv,hl,hp,Octets.bytesEq_padded]
  have hji : (j==i)=false := beq_eq_false_iff_ne.2 hj
  simp only [hji,bne,Bool.or_false,Bool.not_or,Bool.not_not,Bool.and_assoc]

/-- A row that carries the four-tuple of a segment. -/
def CarriesTuple (x : TcpPcb.Tcb) (r : Arrival) : Prop :=
  x.ipVersion=r.ipVersion ∧ x.localPort=(TcpIn.header r.seg).dstPort ∧ x.remotePort=(TcpIn.header r.seg).srcPort ∧
    x.localIp.bytesEq r.lip (TcpPcb.addrBytes r.ipVersion) ∧
    x.remoteIp.bytesEq r.rip (TcpPcb.addrBytes r.ipVersion)=true

/-- A lookup of a segment's tuple on its interface that answers with one row. -/
def FindsRow (cfg : Config) (s : Stack) (r : Arrival) (i : ℕ) : Prop :=
  let w := TcpPcb.find cfg s.side.tcpPcb (tupleOf (s.facing r) r.frame r.lip r.rip r.ipVersion)
  w.io.status=.ok ∧ w.io.index=i

/-- Whether the peer's end of a new connection is recorded: `connect` takes it, or there is nothing
to record. -/
def tupleKept (cfg : Config) (t : TcpPcb.Tables) (r : Arrival) : Bool :=
  if (TcpIn.header r.seg).srcPort=0 then r.rip.bytesZero (TcpPcb.addrBytes r.ipVersion)
  else !TcpPcb.remoteInvalid r.ipVersion r.rip && !pairHeld cfg t r

variable {l : ℕ}

variable (h : Created cfg e s a i r l) (hl : ListenersNamed s.tab) (hi : i < cfg.tcpPcbs) (hfree : (s.tab.tcb i).inUse=false)
include h hl hi hfree

theorem Created.namedRow : (input cfg e s a).tab.tcb i=
      let x := boundRow (TcpPcb.Tcb.opened cfg r.ipVersion) r.lip (header r.seg).dstPort a.netif
      madeRow (if (header r.seg).srcPort==0 || TcpPcb.remoteInvalid r.ipVersion r.rip || pairHeld cfg s.tab r
        then x else connectedRow x r.rip (header r.seg).srcPort) l
        (openedAt cfg (s.facing r) a r.frame r.lip r.rip r.ipVersion l).tcpIn.io := by
  generalize ho : openedAt cfg (s.facing r) a r.frame r.lip r.rip r.ipVersion l=o
  have har := arrival_some h.arrival
  obtain ⟨hready,hlt,hluse,hport⟩ := foundListener_some cfg h.listener
  have htab : o.tcpPcb.tab=s.tab.setTcb i (TcpPcb.Tcb.opened cfg r.ipVersion) := by
    rw [←ho,h.opened]
    rfl
  have hrow : o.tcpPcb.tab.tcb i=TcpPcb.Tcb.opened cfg r.ipVersion := by
    rw [htab]
    simp
  have hbytes : TcpPcb.addrBytes r.ipVersion≠0 := by
    rcases har.ipVersion with hv|hv <;> simp [hv,TcpPcb.addrBytes]
  have hnameable : TcpPcb.nameable (o.tcpPcb.tab.tcb i) := by
    rw [hrow,TcpPcb.nameable_iff]
    exact ⟨rfl,hbytes,rfl⟩
  have hr : o.tcpPcb.ready := by
    rw [←ho,h.opened]
    exact hready
  have hdst : (header r.seg).dstPort≠0 := by
    intro hz
    exact hl l hluse (hport.trans hz)
  have hnetif : o.io.netif=a.netif := ho ▸ har.netif
  rw [h.row,ho,nameTcb_row hr hi hnameable hdst,hrow,htab,hnetif]
  dsimp only
  have hset : (s.tab.setTcb i (TcpPcb.Tcb.opened cfg r.ipVersion)).setTcb i
      (boundRow (TcpPcb.Tcb.opened cfg r.ipVersion) r.lip (header r.seg).dstPort a.netif)=
      s.tab.setTcb i (boundRow (TcpPcb.Tcb.opened cfg r.ipVersion) r.lip (header r.seg).dstPort a.netif) := by
    unfold TcpPcb.Tables.setTcb
    simp
  unfold connectRefuses
  rw [hset,pairTaken_fresh hfree (by rfl) (by rfl) (by rfl)]
  simp [boundRow,TcpPcb.Tcb.opened]

omit h hl hi hfree in
/-- A row in use on the segment's interface, in no zone, matches exactly when it carries the tuple. -/
theorem tcbMatches_iff (hu : x.inUse) (hn : x.netif=t.io.netif)
    (hz : x.localZone=0 ∧ x.remoteZone=0) (hoff : t.io.payloadOff=r.io.payloadOff) :
    TcpPcb.tcbMatches x (tupleOf t r.frame r.lip r.rip r.ipVersion) r.lip r.rip
      (TcpPcb.addrBytes r.ipVersion) ↔ CarriesTuple x r := by
  have hseg : segOf t r.frame=r.seg := by
    unfold segOf Arrival.seg
    rw [hoff]
  unfold TcpPcb.tcbMatches CarriesTuple tupleOf findArgs
  rw [hseg]
  simp only [hu,hn,hz.1,hz.2,Bool.not_true,Bool.false_or,bne_self_eq_false,Bool.and_false,Bool.or_self,
    Bool.false_eq_true,if_false]
  by_cases hv : x.ipVersion=r.ipVersion
  · by_cases hl : x.localPort=(header r.seg).dstPort
    · by_cases hp : x.remotePort=(header r.seg).srcPort
      · simp only [hv,hl,hp,bne_self_eq_false,Bool.or_self,Bool.false_eq_true,if_false]
        cases x.localIp.bytesEq r.lip (TcpPcb.addrBytes r.ipVersion) <;>
          cases x.remoteIp.bytesEq r.rip (TcpPcb.addrBytes r.ipVersion) <;> simp
      · simp [hv,hl,hp]
    · simp [hv,hl]
  · simp [hv]

/-- A lookup of the tuple behind the call answers with the new row exactly when it carries the tuple. -/
theorem Created.findsRow_iff : FindsRow cfg (input cfg e s a) r i ↔ CarriesTuple ((input cfg e s a).tab.tcb i) r := by
  have har := arrival_some h.arrival
  have hbytes : TcpPcb.addrBytes r.ipVersion≠0 := by
    rcases har.ipVersion with hv|hv <;> simp [hv,TcpPcb.addrBytes]
  have hready : s.side.tcpPcb.ready := (foundListener_some cfg h.listener).1
  have hrow : ((input cfg e s a).tab.tcb i).inUse ∧ ((input cfg e s a).tab.tcb i).netif=a.netif ∧
      ((input cfg e s a).tab.tcb i).localZone=0 ∧ ((input cfg e s a).tab.tcb i).remoteZone=0 := by
    rw [h.namedRow hl hi hfree]
    split_ifs <;> exact ⟨rfl,rfl,rfl,rfl⟩
  let f := tupleOf (s.facing r) r.frame r.lip r.rip r.ipVersion
  have hmatch : TcpPcb.tcbMatches _ f r.lip r.rip _ ↔ _ := tcbMatches_iff (t := s.facing r) (r := r) hrow.1 (hrow.2.1.trans har.netif.symm) hrow.2.2 rfl
  -- before the call no row matched, and no other row has changed
  have hnone : ∀ j < cfg.tcpPcbs,TcpPcb.tcbMatches (s.tab.tcb j) f r.lip r.rip
      (TcpPcb.addrBytes r.ipVersion)=false := by
    have hu := h.unknown
    unfold connOf foundTcb at hu
    rw [if_neg (by simp [hready,Stack.facing]; exact hbytes)] at hu
    exact IndexChain.firstIndex_none.1 hu
  have hother : ∀ j < cfg.tcpPcbs,j≠i → TcpPcb.tcbMatches ((input cfg e s a).tab.tcb j) f r.lip r.rip
      (TcpPcb.addrBytes r.ipVersion)=false := by
    intro j hj hji
    rw [h.only.tcb j hji]
    exact hnone j hj
  have hfound : foundTcb cfg (input cfg e s a).side.tcpPcb f r.lip r.rip=
      IndexChain.firstIndex cfg.tcpPcbs fun j => TcpPcb.tcbMatches ((input cfg e s a).tab.tcb j) f r.lip r.rip
        (TcpPcb.addrBytes r.ipVersion) := by
    unfold foundTcb
    rw [if_neg (by simp [h.ready]; exact hbytes)]
    rfl
  have hfind : TcpPcb.find cfg (input cfg e s a).side.tcpPcb
      (tupleOf ((input cfg e s a).facing r) r.frame r.lip r.rip r.ipVersion)=_ :=
    find_eq cfg _ f rfl rfl
  unfold FindsRow
  rw [hfind,←hmatch,hfound,IndexChain.firstIndex_only hi hother]
  cases TcpPcb.tcbMatches ((input cfg e s a).tab.tcb i) f r.lip r.rip (TcpPcb.addrBytes r.ipVersion) with
  | true => exact iff_of_true ⟨rfl,rfl⟩ rfl
  | false => exact iff_of_false (fun h => by cases h.1) (by simp)

theorem Created.carries_iff : CarriesTuple ((input cfg e s a).tab.tcb i) r ↔ tupleKept cfg s.tab r := by
  have hlocal : ((r.lip.padded (TcpPcb.addrBytes r.ipVersion)).bytesEq r.lip
      (TcpPcb.addrBytes r.ipVersion)) := Octets.padded_bytesEq _ _
  have hremote : ((r.rip.padded (TcpPcb.addrBytes r.ipVersion)).bytesEq r.rip
      (TcpPcb.addrBytes r.ipVersion)) := Octets.padded_bytesEq _ _
  rw [h.namedRow hl hi hfree]
  unfold tupleKept CarriesTuple
  dsimp only
  by_cases hp : (header r.seg).srcPort=0
  · rw [if_pos (by simp [hp]),if_pos hp]
    constructor
    · rintro ⟨-,-,-,-,hz⟩
      exact (Octets.zero_bytesEq).symm.trans hz
    · intro hz
      exact ⟨rfl,rfl,hp.symm,hlocal,(Octets.zero_bytesEq).trans hz⟩
  rw [if_neg hp]
  by_cases hc : (TcpPcb.remoteInvalid r.ipVersion r.rip || pairHeld cfg s.tab r)
  · rw [if_pos (by simp only [Bool.or_assoc,hc,Bool.or_true])]
    refine iff_of_false (fun hx => hp hx.2.2.1.symm) ?_
    rw [←Bool.not_or,hc]
    simp
  have hcf := Bool.eq_false_iff.2 hc
  rw [if_neg (by simp only [Bool.or_assoc,hcf,Bool.or_false,beq_iff_eq]; exact hp)]
  refine iff_of_true ⟨rfl,rfl,rfl,hlocal,hremote⟩ ?_
  rw [←Bool.not_or,hcf]
  rfl

omit h hl hi hfree

theorem input_listener {cfg : Config} {e : Env} {s : Stack} {a : InputArgs} :
    (input cfg e s a).tab.listener=s.tab.listener := by
  rcases input_route cfg e s a with ⟨r,-,hd⟩|⟨-,hd⟩
  · rw [hd]
    show (handed cfg s a r).side.tcpPcb.tab.listener=_
    rw [handed_side]
    have hroute := dTcp_route cfg (s.facing r) a r.frame r.lip r.rip r.ipVersion
    generalize dTcp cfg (s.facing r) a r.frame r.lip r.rip r.ipVersion=u at hroute ⊢
    cases hroute with
    | ends tp ti io htab hready hk hdel hf => exact congrArg TcpPcb.Tables.listener htab
    | segment j hj =>
      obtain ⟨hc,-⟩ := segmentOf_some hj
      obtain ⟨w,hw,he⟩ := (dTcpSegment_ran cfg
        (loadedAt cfg (s.facing r) r.frame r.lip r.rip r.ipVersion j) a j).tcpPcb
      have hsame := hw.sameStates.1.listener
      rw [loadedAt_tcpPcb cfg hc] at hsame
      rw [he,TcpPcb.store_listener]
      exact hsame
    | syn l j hc hl hp hsyn hlt hjfree hopen =>
      rcases openedAt_accept cfg hl hlt hopen (header (segOf (s.facing r) r.frame)).dstPort
        (header (segOf (s.facing r) r.frame)).srcPort with ⟨tp,ti,io,he,-,ho,-,-,-⟩ | ⟨tp,ti,he,-,ho,-⟩
      · rw [he]
        exact ho.listener
      · rw [he]
        exact ho.listener
  · obtain ⟨ring,io,ifRow,hs,-⟩ := hd.keeps
    show (input cfg e s a).side.tcpPcb.tab.listener=_
    rw [hs]
    rfl

theorem tcpDeliver_listener {cfg : Config} {s : Side} {p : ℕ} :
    (tcpDeliver cfg s p).tcpPcb.tab.listener=s.tcpPcb.tab.listener := by
  have hrt := tcpDeliver_route cfg s p
  generalize tcpDeliver cfg s p=u at hrt ⊢
  cases hrt with
  | refused io hac hg hc hb => rfl
  | idle w io ht hr hac hg hc hb => exact congrArg TcpPcb.Tables.listener ht
  | held w ht hr hi hu hv hj hju ha hg =>
    refine ((TcpPcb.step_sameStates cfg (c := .oosFree _) rfl).listener).trans ?_
    unfold deliverHeld
    dsimp only
    split_ifs
    · refine (TcpPcb.store_listener cfg).trans ?_
      exact congrArg TcpPcb.Tables.listener ht
    · exact congrArg TcpPcb.Tables.listener ht

variable {ok : TcpPcb.Call → Prop}

theorem step_listenersNamed (cfg : Config) (s : Stack) (ev : Event ok)
    (h : ListenersNamed s.tab) : ListenersNamed (step cfg s ev).tab := by
  cases ev with
  | input e a => exact h.same (input_listener)
  | deliver p => exact h.same (tcpDeliver_listener)
  | ack =>
    obtain ⟨tp,io,pcbRow,he,ht,-,-⟩ := tcpAckFlush_frame cfg s.side
    show ListenersNamed (tcpAckFlush cfg s.side).tcpPcb.tab
    rw [he]
    exact h.same (congrArg TcpPcb.Tables.listener ht)
  | app c hc => exact TcpPcb.step_listenersNamed cfg c h

theorem run_listenersNamed {cfg : Config} {events : List (Event ok)} :
    ListenersNamed (StepRun.run (step cfg) Stack.booted events).tab := by
  have hst : ∀ (s : Stack) (ev : Event ok),ListenersNamed s.tab → ListenersNamed (step cfg s ev).tab :=
    fun s ev h => step_listenersNamed cfg s ev h
  have hs : ListenersNamed Stack.booted.tab := fun l hu => by cases hu
  exact StepRun.run_always hst hs

/-- A connection a frame makes carries its SYN's four-tuple and is found by it, exactly when the peer's end could be
recorded. -/
theorem input_tuple_iff (cfg : Config) (e : Env) (s : Stack) (a : InputArgs) (i : ℕ) (hl : ListenersNamed s.tab)
    (hi : i < cfg.tcpPcbs) (hfree : (s.tab.tcb i).inUse=false) (huse : ((input cfg e s a).tab.tcb i).inUse=true) :
    ∃ r,arrival cfg e s a=some r ∧ (CarriesTuple ((input cfg e s a).tab.tcb i) r ∧ FindsRow cfg (input cfg e s a) r i ↔
        tupleKept cfg s.tab r=true) := by
  obtain ⟨r,l,h⟩ := input_created hfree huse
  refine ⟨r,h.arrival,?_⟩
  rw [h.findsRow_iff hl hi hfree,and_self,h.carries_iff hl hi hfree]

end Create

instance (x : TcpPcb.Tcb) (r : Arrival) : Decidable (CarriesTuple x r) :=
  inferInstanceAs (Decidable (_ ∧ _ ∧ _ ∧ _ ∧ _))

instance (cfg : Config) (s : Stack) (r : Arrival) (i : ℕ) : Decidable (FindsRow cfg s r i) :=
  inferInstanceAs (Decidable (_ ∧ _))

/-- A stack that listens on port 80. -/
def Stack.listening : Stack :=
  StepRun.run (step .shipped) Stack.booted [(.app (.listen ⟨some .zero,80,0,0,1,4⟩) trivial : Event fun _ => True)]

def synFrom (port : BitVec 16) : InputArgs := Sent.args ⟨0x0A000002,0x0A000001,port,80,100,0,tcpSyn,[]⟩ 0 0

/-- A SYN from port 5000 makes a connection, and the condition decides it. -/
theorem input_tuple_iff_port5000 : ∃ r,arrival .shipped (.host 0x0A000001) Stack.listening (synFrom 5000)=some r ∧
      (CarriesTuple ((input .shipped (.host 0x0A000001) Stack.listening (synFrom 5000)).tab.tcb 0) r ∧
        FindsRow .shipped (input .shipped (.host 0x0A000001) Stack.listening (synFrom 5000)) r 0 ↔
        tupleKept .shipped Stack.listening.tab r=true) :=
  input_tuple_iff .shipped (.host 0x0A000001) Stack.listening (synFrom 5000) 0 (run_listenersNamed) (by decide)
    (by decide +kernel) (by decide +kernel)

/-- A SYN from port 0 leaves a row in use that does not name its peer and that no lookup finds. -/
theorem portless_syn_unfound : ListenersNamed Stack.listening.tab ∧ (Stack.listening.tab.tcb 0).inUse=false ∧
      ((input .shipped (.host 0x0A000001) Stack.listening (synFrom 0)).tab.tcb 0).inUse=true ∧
      ∃ r,arrival .shipped (.host 0x0A000001) Stack.listening (synFrom 0)=some r ∧
        ¬CarriesTuple ((input .shipped (.host 0x0A000001) Stack.listening (synFrom 0)).tab.tcb 0) r ∧
        ¬FindsRow .shipped (input .shipped (.host 0x0A000001) Stack.listening (synFrom 0)) r 0 := by
  have hval : (arrival .shipped (.host 0x0A000001) Stack.listening (synFrom 0)).map (fun r =>
      (decide (CarriesTuple ((input .shipped (.host 0x0A000001) Stack.listening (synFrom 0)).tab.tcb 0) r),
        decide (FindsRow .shipped (input .shipped (.host 0x0A000001) Stack.listening (synFrom 0)) r 0)))=
      some (false,false) := by decide +kernel
  obtain ⟨r,hr,hv⟩ := Option.map_eq_some_iff.1 hval
  obtain ⟨hc,hf⟩ := Prod.mk.inj hv
  exact ⟨run_listenersNamed,by decide +kernel,by decide +kernel,r,hr,of_decide_eq_false hc,of_decide_eq_false hf⟩

/-- Change the connection tables and the segment machine for others. -/
def Stack.onTcp (s : Stack) (tp : TcpPcb.Work) (ti : TcpIn.Work) : Stack :=
  {s with side := {s.side with tcpPcb := tp,tcpIn := ti}}

/-- Two stacks that differ only in the variables and control fields of connections in use, and in what the blocks keep
of them. -/
structure Twins (s t : Stack) : Prop where
  rest : ∃ tcb io tio,t=s.onTcp {s.side.tcpPcb with tab := {s.tab with tcb := tcb},io := io} {s.side.tcpIn with io := tio}
  /-- A connection in use keeps all but its contents. -/
  row : ∀ k,∃ vars ctl,t.tab.tcb k={s.tab.tcb k with vars := vars,ctl := ctl}
  /-- A row that is free is the same. -/
  free : ∀ k,(s.tab.tcb k).inUse=false → t.tab.tcb k=s.tab.tcb k

section Fresh

variable {cfg : Config} {e : Env} {s t : Stack} {a : InputArgs} {i : ℕ}

theorem dLink_onTcp (tp : TcpPcb.Work) (ti : TcpIn.Work) (fr : Octets) :
    dLink (s.onTcp tp ti) a fr=((dLink s a fr).1.onTcp tp ti,(dLink s a fr).2) := by
  let f : Stack×Option ℕ → Stack×Option ℕ := fun x => (x.1.onTcp tp ti,x.2)
  show _=f (dLink s a fr)
  unfold dLink
  cases Vlan.parse fr a.len with
  | none =>
    rw [apply_ite f,apply_ite f]
    rfl
  | some v =>
    rw [apply_ite f,apply_ite f,apply_ite f,apply_ite f,apply_ite f]
    rfl

theorem arrival_onTcp (tp : TcpPcb.Work) (ti : TcpIn.Work) : arrival cfg e (s.onTcp tp ti) a=arrival cfg e s a := by
  unfold arrival payloadOf
  have hl : ∀ fr,dLink (entered (s.onTcp tp ti) a) a fr=
      ((dLink (entered s a) a fr).1.onTcp tp ti,(dLink (entered s a) a fr).2) :=
    fun fr => dLink_onTcp (s := entered s a) tp ti fr
  cases a.frame with
  | none => rfl
  | some fr =>
    dsimp only
    rw [hl fr]
    rfl

/-- The variables LISTEN sets from a SYN over an image. -/
def freshVars (seq wnd : BitVec 32) (v : TcpVars) : TcpVars :=
  {v with
    rcvNxt := seq+1
    irs := seq
    sndNxt := v.iss+1
    sndUna := v.iss
    sndWnd := wnd
    sndWl1 := seq
    sndWl2 := v.iss}

/-- The larger of an image's largest window and the SYN's. -/
def largerWnd (wnd : BitVec 32) (c : TcpPcbCtl) : BitVec 32 := if c.maxSndWnd<wnd then wnd else c.maxSndWnd

/-- The control fields it sets. -/
def freshCtl (seq wnd : BitVec 32) (c : TcpPcbCtl) : TcpPcbCtl :=
  {c with maxSndWnd := largerWnd wnd c,lastAckSent := seq+1}

/-- LISTEN on a fresh SYN is those over its image, and a reply from its ISS. -/
theorem listen_fresh {w : TcpIn.Work} (hr : w.ctx.ready) (hs : w.io.state=.listen) (hf : freshSyn w.io.seg.flags) :
    (listen w).io.vars=freshVars w.io.seg.seq w.io.seg.wnd w.io.vars ∧
      (listen w).io.ctl=freshCtl w.io.seg.seq w.io.seg.wnd w.io.ctl ∧
      (listen w).io.reply=⟨w.io.vars.iss,w.io.seg.seq+1,tcpSyn ||| tcpAck⟩ := by
  simp only [freshSyn,Bool.and_eq_true,Bool.not_eq_true'] at hf
  obtain ⟨⟨hrs,ha⟩,hsy⟩ := hf
  have hl : listen w={w with io := putSynAck (listenVars (begun w))} := by
    unfold TcpIn.listen
    rw [if_neg (by simp [hr,hs]),if_neg (by simp [hrs]),if_neg (by simp [ha]),if_pos hsy]
  rw [hl]
  unfold listenVars raiseMaxSndWnd freshCtl largerWnd
  split_ifs with hm hm' hm'
  · exact ⟨rfl,rfl,rfl⟩
  · exact absurd hm hm'
  · exact absurd hm' hm
  · exact ⟨rfl,rfl,rfl⟩

theorem parse_ready {w : TcpIn.Work} {x : TcpIn.ParseArgs} (h : (parse w x).io.status=.ok) : (parse w x).ctx.ready := by
  obtain ⟨seg,opts,st,hf⟩ := parse_frame
  rw [hf]
  show w.ctx.ready
  by_contra hr
  unfold parse at h
  split at h
  · rw [if_pos (by simp [hr])] at h
    cases h
  · cases h

/-- What the images of two blocks must agree on for a SYN that offers a window. -/
structure ImagesAgree (wnd : BitVec 32) (x y : TcpPcb.Io) : Prop where
  iss : x.vars.iss=y.vars.iss
  /-- The urgent pointers and the window offered, which LISTEN does not set. -/
  kept : x.vars.sndUp=y.vars.sndUp ∧ x.vars.rcvWnd=y.vars.rcvWnd ∧ x.vars.rcvUp=y.vars.rcvUp
  /-- Every control field but the two LISTEN sets. -/
  ctl : {x.ctl with maxSndWnd := 0,lastAckSent := 0}={y.ctl with maxSndWnd := 0,lastAckSent := 0}
  /-- The largest window, once the SYN's is counted. -/
  wnd : largerWnd wnd x.ctl=largerWnd wnd y.ctl

theorem freshVars_eq_iff (seq wnd : BitVec 32) (v v' : TcpVars) : freshVars seq wnd v=freshVars seq wnd v' ↔
      v.iss=v'.iss ∧ v.sndUp=v'.sndUp ∧ v.rcvWnd=v'.rcvWnd ∧ v.rcvUp=v'.rcvUp := by
  cases v
  cases v'
  simp only [freshVars,TcpVars.mk.injEq]
  constructor
  · rintro ⟨-,-,-,hup,-,-,hi,-,hw,hr,-⟩
    exact ⟨hi,hup,hw,hr⟩
  · rintro ⟨rfl,rfl,rfl,rfl⟩
    simp

theorem freshCtl_eq_iff (seq wnd : BitVec 32) (c d : TcpPcbCtl) : freshCtl seq wnd c=freshCtl seq wnd d ↔
      {c with maxSndWnd := 0,lastAckSent := 0}={d with maxSndWnd := (0 : BitVec 32),lastAckSent := (0 : BitVec 32)} ∧
        largerWnd wnd c=largerWnd wnd d := by
  cases c
  cases d
  simp only [freshCtl,TcpPcbCtl.mk.injEq]
  tauto

/-- The window a SYN offers, which is never scaled. -/
def synWnd (r : Arrival) : BitVec 32 := (TcpIn.header r.seg).window.setWidth 32

/-- A new connection is what LISTEN makes of the image in the tables' block. -/
theorem Created.fresh {r : Arrival} {l : ℕ} (h : Created cfg e s a i r l) : ((input cfg e s a).tab.tcb i).vars=
        freshVars (header r.seg).seq (synWnd r) s.side.tcpPcb.io.vars ∧
      ((input cfg e s a).tab.tcb i).ctl=freshCtl (header r.seg).seq (synWnd r) s.side.tcpPcb.io.ctl ∧
      (input cfg e s a).side.io.reply=⟨s.side.tcpPcb.io.vars.iss,(header r.seg).seq+1,tcpSyn ||| tcpAck⟩ := by
  obtain ⟨p,hp,hseg,-⟩ := parse_ok h.parsed
  have hp' : r.seg=p := Option.some.inj hp
  subst hp'
  have hflags := parsedBy_flags (s.facing r) r.frame r.lip r.rip r.ipVersion h.parsed
  have hsyn : hasBit (header r.seg).flags tcpSyn := by
    have := h.syn
    simp only [freshSyn,Bool.and_eq_true] at this
    exact this.2
  have hready := parse_ready h.parsed
  have hwnd : _=synWnd r := (congrArg TcpIn.SegArgs.wnd hseg).trans (if_pos hsyn)
  have hseq : _=(header r.seg).seq := congrArg TcpIn.SegArgs.seq hseg
  obtain ⟨hv,hc,hrep⟩ := listen_fresh
    (w := {dTcpLoadIn (listenedAt (s.facing r) r.frame r.lip r.rip r.ipVersion l) l a.nowMs |>.tcpIn with
      io := {(dTcpLoadIn (listenedAt (s.facing r) r.frame r.lip r.rip r.ipVersion l) l a.nowMs).tcpIn.io with
        state := .listen}})
    hready rfl (hflags ▸ h.syn)
  refine ⟨?_,?_,?_⟩
  · rw [h.row,←hseq,←hwnd]
    exact hv
  · rw [h.row,←hseq,←hwnd]
    exact hc
  · rw [h.reply,←hseq]
    exact hrep

/-- Two such stacks give a new connection the same fields and reply exactly when the images in their blocks agree. -/
theorem twins_fresh_iff (cfg : Config) (e : Env) (s t : Stack) (a : InputArgs) (i : ℕ) (h : Twins s t)
    (hfree : (s.tab.tcb i).inUse=false) (hs : ((input cfg e s a).tab.tcb i).inUse=true)
    (ht : ((input cfg e t a).tab.tcb i).inUse=true) :
    ∃ r,arrival cfg e s a=some r ∧ (((input cfg e s a).tab.tcb i).vars=((input cfg e t a).tab.tcb i).vars ∧
        ((input cfg e s a).tab.tcb i).ctl=((input cfg e t a).tab.tcb i).ctl ∧
        (input cfg e s a).side.io.reply=(input cfg e t a).side.io.reply ↔
        ImagesAgree (synWnd r) s.side.tcpPcb.io t.side.tcpPcb.io) := by
  have hfree' : (t.tab.tcb i).inUse=false := by rw [h.free i hfree]; exact hfree
  obtain ⟨r,l,hr⟩ := input_created hfree hs
  obtain ⟨r',l',hr'⟩ := input_created hfree' ht
  have hrr : r'=r := by
    obtain ⟨tcb,io,tio,he⟩ := h.rest
    have ha := hr'.arrival
    rw [he,arrival_onTcp,hr.arrival] at ha
    exact (Option.some.inj ha).symm
  subst hrr
  obtain ⟨hv,hc,hp⟩ := hr.fresh
  obtain ⟨hv',hc',hp'⟩ := hr'.fresh
  refine ⟨r',hr.arrival,?_⟩
  rw [hv,hv',hc,hc',hp,hp',freshVars_eq_iff,freshCtl_eq_iff]
  constructor
  · rintro ⟨⟨hiss,hkept⟩,⟨hctl,hwnd⟩,-⟩
    exact ⟨hiss,hkept,hctl,hwnd⟩
  · intro g
    exact ⟨⟨g.iss,g.kept⟩,⟨g.ctl,g.wnd⟩,by rw [g.iss]⟩

end Fresh

/-- The calls behind which a connection on row 0 starts from a number, and is read. -/
def loadedBy (iss : BitVec 32) : List (Event fun _ => True) :=
  [.app (.listen ⟨some .zero,80,0,0,1,4⟩) trivial,.app (.openTcb 4) trivial,
    .app (.store 0 {TcpVars.zero with iss := iss} .zero .closed) trivial,.app (.load 0) trivial]

def Stack.loaded (iss : BitVec 32) : Stack := StepRun.run (step .shipped) Stack.booted (loadedBy iss)

theorem loaded_tcb (iss : BitVec 32) (k : ℕ) : (Stack.loaded iss).tab.tcb k=
    if k=0 then {TcpPcb.Tcb.opened .shipped 4 with vars := {TcpVars.zero with iss := iss},ctl := .zero,state := .closed}
    else .zero := by
  cases k <;> rfl

theorem loaded_twins {x y : BitVec 32} : Twins (Stack.loaded x) (Stack.loaded y) := by
  refine ⟨⟨_,_,_,rfl⟩,fun k => ?_,fun k hk => ?_⟩
  · rw [loaded_tcb,loaded_tcb]
    split_ifs <;> exact ⟨_,_,rfl⟩
  · rw [loaded_tcb] at hk
    rw [loaded_tcb,loaded_tcb]
    split_ifs at hk ⊢
    · cases hk
    · rfl

/-- The same stack behind a SYN from port 5000. -/
def Stack.joined (iss : BitVec 32) : Stack := input .shipped (.host 0x0A000001) (Stack.loaded iss) (synFrom 5000)

/-- The SYN takes row 1 of both, and the condition decides it. -/
theorem twins_fresh_iff_loaded : ∃ r,arrival .shipped (.host 0x0A000001) (Stack.loaded 1) (synFrom 5000)=some r ∧
      (((Stack.joined 1).tab.tcb 1).vars=((Stack.joined 2).tab.tcb 1).vars ∧
        ((Stack.joined 1).tab.tcb 1).ctl=((Stack.joined 2).tab.tcb 1).ctl ∧
        (Stack.joined 1).side.io.reply=(Stack.joined 2).side.io.reply ↔
        ImagesAgree (synWnd r) (Stack.loaded 1).side.tcpPcb.io (Stack.loaded 2).side.tcpPcb.io) :=
  twins_fresh_iff .shipped (.host 0x0A000001) (Stack.loaded 1) (Stack.loaded 2) (synFrom 5000) 1 (loaded_twins)
    (by decide +kernel) (by decide +kernel) (by decide +kernel)

/-- The new connection starts from the number of the other one, and the reply tells the peer. -/
theorem loaded_iss_leaks : Twins (Stack.loaded 1) (Stack.loaded 2) ∧ ((Stack.loaded 1).tab.tcb 1).inUse=false ∧
      (((Stack.joined 1).tab.tcb 1).inUse=true ∧ ((Stack.joined 1).tab.tcb 1).vars.iss=1 ∧
        (Stack.joined 1).side.io.reply.seq=1) ∧
      ((Stack.joined 2).tab.tcb 1).inUse=true ∧ ((Stack.joined 2).tab.tcb 1).vars.iss=2 ∧
        (Stack.joined 2).side.io.reply.seq=2 :=
  ⟨loaded_twins,by decide +kernel,by decide +kernel,by decide +kernel⟩

section Step

variable (cfg : Config)

/-- Whether a frame takes back a connection in SYN-RECEIVED that a listener made. -/
def relistsBy (e : Env) (s : Stack) (a : InputArgs) : Bool :=
  match arrival cfg e s a with
  | none => false
  | some r =>
    match segmentOf cfg (s.facing r) r.frame r.lip r.rip r.ipVersion with
    | none => false
    | some i => TcpIn.relists cfg (enteredAt (s.facing r) a r.frame r.lip r.rip r.ipVersion i)

theorem runIn_listen_iff {w : TcpIn.Work} (hs : w.io.state≠.listen) :
    (runIn cfg w).io.state=.listen ↔ TcpIn.relists cfg w := by
  unfold runIn
  split_ifs with h1 h2
  · simp only [synSent_not_listen hs,false_iff]
    simp [relists,h1]
  · have hc : (closed w).io.state=w.io.state := by
      unfold closed
      split_ifs <;> rfl
    rw [hc]
    simp [relists,h2]
  · exact segment_listen_iff hs

variable {s : Side} {a : InputArgs} {fr lip rip : Octets} {ver i : ℕ}

theorem dTcpSegment_noListen (hn : NoListen cfg s.tcpPcb.tab) (hi : segmentOf cfg s fr lip rip ver=some i) :
    NoListen cfg (dTcpSegment cfg (loadedAt cfg s fr lip rip ver i) a i).tcpPcb.tab ↔
      TcpIn.relists cfg (enteredAt s a fr lip rip ver i)=false := by
  obtain ⟨hc,-⟩ := segmentOf_some hi
  obtain ⟨hrd,hlt,hu,-,-⟩ := foundTcb_some cfg hc
  have htp := loadedAt_tcpPcb cfg hc
  have hrn := dTcpSegment_ran cfg (loadedAt cfg s fr lip rip ver i) a i
  obtain ⟨w,hw,he⟩ := hrn.tcpPcb
  rw [machineOf_loadedAt hc] at he
  have hs := hw.sameStates
  rw [htp] at hs
  have hst : (enteredAt s a fr lip rip ver i).io.state≠.listen := hn i hlt hu
  have hif := runIn_listen_iff cfg hst
  have hw' : NoListen cfg w.tab := hn.same cfg hs.1
  rw [he]
  generalize runIn cfg (enteredAt s a fr lip rip ver i)=m at *
  constructor
  · intro h
    by_contra hr
    have hr' : relists cfg (enteredAt s a fr lip rip ver i) := by simpa using hr
    have hls := hif.2 hr'
    have hsy : (s.tcpPcb.tab.tcb i).state=.synReceived := by
      simp only [relists,Bool.and_eq_true,beq_iff_eq] at hr'
      exact hr'.1.1.2
    -- SYN-RECEIVED to LISTEN is in the transition table, so the store goes through
    have hstore := TcpPcb.store_eq cfg (w := w.image m.io.vars m.io.ctl m.io.state) (p := i)
      (hs.2.trans hrd) hlt ((hs.1.row i).1.trans hu)
      (by
        show TcpPcb.transitionOk (w.tab.tcb i).state _
        rw [(hs.1.row i).2]
        show TcpPcb.transitionOk (s.tcpPcb.tab.tcb i).state m.io.state
        rw [hsy,hls]
        decide)
    rw [hstore] at h
    refine h i hlt ?_ ?_
    · simpa [TcpPcb.Work.done,TcpPcb.Work.image] using (hs.1.row i).1.trans hu
    · simpa [TcpPcb.Work.done,TcpPcb.Work.image] using hls
  · intro h
    have hne : m.io.state≠.listen := by
      intro hl
      rw [hif.1 hl] at h
      cases h
    exact TcpPcb.step_noListen cfg (c := .store i _ _ _) hw' (by simpa [TcpPcb.Call.storesListen] using hne)

theorem OnlyRow.noListen {t u : TcpPcb.Tables} (h : OnlyRow i t u) (hn : NoListen cfg t)
    (hi : (u.tcb i).inUse → (u.tcb i).state≠.listen) : NoListen cfg u := by
  intro k hk hu
  by_cases hki : k=i
  · rw [hki] at hu ⊢
    exact hi hu
  · rw [h.tcb k hki] at hu ⊢
    exact hn k hk hu

theorem dTcp_noListen (hn : NoListen cfg s.tcpPcb.tab) (hi : segmentOf cfg s fr lip rip ver=none) :
    NoListen cfg (dTcp cfg s a fr lip rip ver).tcpPcb.tab := by
  have hroute := dTcp_route cfg s a fr lip rip ver
  generalize dTcp cfg s a fr lip rip ver=u at hroute ⊢
  cases hroute with
  | ends tp ti io htab hr hk hd hf => exact hn.same cfg (.of_tab htab)
  | segment i h =>
    rw [hi] at h
    cases h
  | syn l i hc hl hp hsyn hlt hfree hopen =>
    rcases openedAt_accept cfg hl hlt hopen (header (segOf s fr)).dstPort
      (header (segOf s fr)).srcPort with ⟨tp,ti,io,he,-,ho,hz,-,-⟩ | ⟨tp,ti,he,-,ho,hrow,-⟩
    · rw [he]
      exact ho.noListen cfg hn fun hu => by rw [hz] at hu; cases hu
    · rw [he]
      exact ho.noListen cfg hn fun _ => by rw [hrow]; simp [madeRow]

/-- A frame leaves a connection in LISTEN exactly when it takes a listener's SYN-RECEIVED back. -/
theorem input_noListen {e : Env} {s : Stack} (hn : NoListen cfg s.tab) :
    NoListen cfg (input cfg e s a).tab ↔ relistsBy cfg e s a=false := by
  unfold relistsBy
  rcases input_route cfg e s a with ⟨r,hr,hd⟩|⟨hr,hd⟩
  · rw [hr,hd]
    show NoListen cfg (handed cfg s a r).side.tcpPcb.tab ↔ _
    rw [handed_side]
    dsimp only
    cases hi : segmentOf cfg (s.facing r) r.frame r.lip r.rip r.ipVersion with
    | none => exact ⟨fun _ => rfl,fun _ => dTcp_noListen cfg hn hi⟩
    | some i =>
      rw [dTcp_segment a hi]
      exact dTcpSegment_noListen cfg hn hi
  · rw [hr]
    obtain ⟨ring,io,ifRow,hs,-⟩ := hd.keeps
    refine ⟨fun _ => rfl,fun _ => ?_⟩
    show NoListen cfg (input cfg e s a).side.tcpPcb.tab
    rw [hs]
    exact hn

theorem tcpDeliver_noListen (hn : NoListen cfg s.tcpPcb.tab) : NoListen cfg (tcpDeliver cfg s i).tcpPcb.tab := by
  have hrt := tcpDeliver_route cfg s i
  generalize tcpDeliver cfg s i=u at hrt ⊢
  cases hrt with
  | refused io hac hg hc hb => exact hn
  | idle w io ht hr hac hg hc hb => exact hn.same cfg (.of_tab ht)
  | held w ht hr hi hu hv hj hju ha hg =>
    have hw : NoListen cfg w.tab := hn.same cfg (.of_tab ht)
    have hs : w.io.state≠.listen := by
      rw [hv.2.2]
      exact hn i hi hu
    -- free the row behind whichever of the two the delivery left
    refine TcpPcb.step_noListen cfg (c := .oosFree _) ?_ rfl
    unfold deliverHeld
    dsimp only
    split_ifs
    · exact TcpPcb.step_noListen cfg (c := .store i _ _ _) hw
        (by simpa [TcpPcb.Call.storesListen,deliverSide] using hs)
    · exact hw

/-- What a call must not do for connections to stay out of LISTEN. -/
def leavesListen {ok : TcpPcb.Call → Prop} (s : Stack) : Event ok → Prop
  | .input e a => relistsBy cfg e s a=false
  | _ => True

/-- One call keeps connections out of LISTEN exactly when it takes no SYN-RECEIVED back. -/
theorem step_noListen_iff (s : Stack) (ev : Event fun c => c.storesListen=false) (hn : NoListen cfg s.tab) :
    NoListen cfg (step cfg s ev).tab ↔ leavesListen cfg s ev := by
  cases ev with
  | input e a => exact input_noListen cfg hn
  | deliver i => exact iff_of_true (tcpDeliver_noListen cfg hn) trivial
  | ack =>
    refine iff_of_true ?_ trivial
    obtain ⟨tp,io,pcbRow,he,ht,-,-⟩ := tcpAckFlush_frame cfg s.side
    show NoListen cfg (tcpAckFlush cfg s.side).tcpPcb.tab
    rw [he]
    exact hn.same cfg (.of_tab ht)
  | app c h => exact iff_of_true (TcpPcb.step_noListen cfg hn h) trivial

/-- Over a run no connection is in LISTEN exactly when none was at first and no frame takes a SYN-RECEIVED back. -/
theorem run_noListen_iff (s : Stack) (events : List (Event fun c => c.storesListen=false)) :
    (∀ n,NoListen cfg (run (step cfg) s (events.take n)).tab) ↔
      NoListen cfg s.tab ∧ Along (step cfg) (leavesListen cfg) s events :=
  every_iff_along (fun t ev hn => step_noListen_iff cfg t ev hn)

end Step

/-- A listener on port 80, a SYN for it, and a reset at the next number. -/
def relisting : List (Event fun c => c.storesListen=false) :=
  [.app (.listen ⟨some .zero,80,0,0,1,4⟩) rfl,
    .input (.host 0x0A000001) (Sent.args ⟨0x0A000002,0x0A000001,5000,80,100,0,tcpSyn,[]⟩ 0 0),
    .input (.host 0x0A000001) (Sent.args ⟨0x0A000002,0x0A000001,5000,80,101,0,tcpRst,[]⟩ 1 0)]

/-- The reset leaves the connection row in use and in LISTEN. -/
theorem relisting_leaves_listen :
    NoListen .shipped Stack.booted.tab ∧ ¬NoListen .shipped (run (step .shipped) Stack.booted relisting).tab := by
  refine ⟨nofun,fun h => ?_⟩
  have hrow : ((run (step .shipped) Stack.booted relisting).tab.tcb 0).inUse=true ∧
      ((run (step .shipped) Stack.booted relisting).tab.tcb 0).state=.listen := by decide +kernel
  exact h 0 (by decide) hrow.1 hrow.2

end IdemIp.Dispatch
