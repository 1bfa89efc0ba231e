import IdemIp.DispatchInput
import IdemIp.TcpPcbEffects

/-!
# What the dispatcher can do, and its runs

One inversion lemma per helper of `d_tcp` and of `tcp_deliver`, then one for each
entry. A run is made of frames, re-deliveries, owed acknowledgments and the
application's own calls of the connection tables as far as a caller allows them.
-/

namespace IdemIp.Dispatch

section Entries

open IndexChain Bool TcpPcb TcpIn Function

section Pins

variable (cfg : Config) (s : Side) (netif desc : ℕ)

theorem dPin_refused (h : (dPin cfg s netif desc).2=false) : (dPin cfg s netif desc).1=s := by
  unfold dPin at h ⊢
  split_ifs at h ⊢
  · rfl
  rcases Dma.pin_cases cfg (s.ring netif) (desc%2^8) with ⟨hr,-⟩|⟨hok,-⟩
  · dsimp only
    rw [hr,update_eq_self]
  have hst : ((Dma.pin cfg (s.ring netif) (desc%2^8)).2==Status.ok) := by
    rw [hok]
    rfl
  exact absurd (hst.symm.trans h) (by decide)

theorem dPin_congr {t : Side} (hr : t.ring=s.ring) (hi : t.ifRow=s.ifRow) :
    (dPin cfg t netif desc).1.ring=(dPin cfg s netif desc).1.ring ∧ (dPin cfg t netif desc).2=(dPin cfg s netif desc).2 := by
  unfold dPin
  simp only [hr,hi]
  split_ifs
  · exact ⟨hr,rfl⟩
  · exact ⟨hr,rfl⟩
  · exact ⟨rfl,rfl⟩

theorem dUnpin_congr {t : Side} (hr : t.ring=s.ring) (hi : t.ifRow=s.ifRow) :
    (dUnpin cfg t netif desc).ring=(dUnpin cfg s netif desc).ring := by
  unfold dUnpin
  simp only [hr,hi]
  split_ifs
  · exact hr
  · exact hr
  · rfl

end Pins

variable {lip rip : Octets}

section Lookups

variable (cfg : Config) (w : TcpPcb.Work) (f : TcpPcb.FindArgs)

/-- The connection a tuple names, if the tables can be asked. -/
def foundTcb (localIp remoteIp : Octets) : Option ℕ :=
  if !w.ready || TcpPcb.addrBytes f.ipVersion==0 then none
  else firstIndex cfg.tcpPcbs fun i =>
    TcpPcb.tcbMatches (w.tab.tcb i) f localIp remoteIp (TcpPcb.addrBytes f.ipVersion)

/-- `find` answers with that connection. -/
theorem find_eq (hl : f.localIp=some lip) (hr : f.remoteIp=some rip) : find cfg w f=match foundTcb cfg w f lip rip with
      | none => w.noIndex .err
      | some i => w.took w.tab i := by
  unfold find foundTcb
  rw [hl,hr]
  cases w.ready with
  | false => rfl
  | true =>
    by_cases hn : addrBytes f.ipVersion=0
    · simp [hn]
    · simp only [hn,Bool.not_true,Bool.false_eq_true,if_false]
      cases firstIndex cfg.tcpPcbs _ <;> simp [hn]

theorem foundTcb_some {w : TcpPcb.Work} {f : TcpPcb.FindArgs} {i : ℕ} (h : foundTcb cfg w f lip rip=some i) :
    w.ready ∧ i < cfg.tcpPcbs ∧ (w.tab.tcb i).inUse ∧ addrBytes f.ipVersion≠0 ∧
      tcbMatches (w.tab.tcb i) f lip rip (addrBytes f.ipVersion) := by
  unfold foundTcb at h
  split_ifs at h with hg
  obtain ⟨hm,hi,-⟩ := firstIndex_some.mp h
  have hg' : w.ready ∧ addrBytes f.ipVersion≠0 := by simpa using hg
  refine ⟨hg'.1,hi,?_,hg'.2,hm⟩
  unfold tcbMatches at hm
  by_contra hu
  simp [hu] at hm

/-- The listener for an address, specific ones first. -/
def foundListener (localIp : Octets) : Option ℕ :=
  let n := TcpPcb.addrBytes f.ipVersion
  if !w.ready || n==0 then none
  else (firstIndex cfg.tcpListenPcbs fun i => TcpPcb.listenerMatches (w.tab.listener i) f localIp n false).or
    (firstIndex cfg.tcpListenPcbs fun i => TcpPcb.listenerMatches (w.tab.listener i) f localIp n true)

/-- `find_listener` answers with that listener. -/
theorem findListener_eq (hl : f.localIp=some lip) : findListener cfg w f=(match foundListener cfg w f lip with
      | none => w.noIndex .err
      | some i => w.took w.tab i) := by
  unfold findListener foundListener
  rw [hl]
  cases w.ready with
  | false => rfl
  | true =>
    by_cases hn : addrBytes f.ipVersion=0
    · simp [hn]
    simp only [hn,Bool.not_true,Bool.false_eq_true,if_false]
    cases firstIndex cfg.tcpListenPcbs (fun i =>
        listenerMatches (w.tab.listener i) f lip (addrBytes f.ipVersion) false) with
    | some i => simp [hn]
    | none =>
      cases firstIndex cfg.tcpListenPcbs (fun i =>
        listenerMatches (w.tab.listener i) f lip (addrBytes f.ipVersion) true) <;> simp [hn]

/-- A listener that matches is in use and listens on the port asked for. -/
theorem listenerMatches_true {l : TcpPcb.Listener} {f : TcpPcb.FindArgs} {n : ℕ} {b : Bool}
    (h : listenerMatches l f lip n b) : l.inUse ∧ l.localPort=f.localPort := by
  unfold listenerMatches at h
  by_cases hg : (!l.inUse || l.ipVersion != f.ipVersion || l.localPort != f.localPort)
  · simp [hg] at h
  · simp only [not_eq_true,or_eq_false_iff,not_eq_false',bne_eq_false_iff_eq] at hg
    exact ⟨hg.1.1,hg.2⟩

theorem foundListener_some {w : TcpPcb.Work} {f : TcpPcb.FindArgs} {i : ℕ} (h : foundListener cfg w f lip=some i) :
    w.ready ∧ i < cfg.tcpListenPcbs ∧ (w.tab.listener i).inUse ∧ (w.tab.listener i).localPort=f.localPort := by
  unfold foundListener at h
  dsimp only at h
  split_ifs at h with hg
  have hr : w.ready := by
    by_contra hr
    simp [hr] at hg
  rcases Option.or_eq_some_iff.1 h with h|⟨-,h⟩
  · obtain ⟨hm,hi,-⟩ := firstIndex_some.mp h
    exact ⟨hr,hi,listenerMatches_true hm⟩
  · obtain ⟨hm,hi,-⟩ := firstIndex_some.mp h
    exact ⟨hr,hi,listenerMatches_true hm⟩

/-- `open` keeps the ready mark. -/
theorem openTcb_ready {v : ℕ} : (openTcb cfg w v).ready=w.ready := by
  unfold openTcb
  split_ifs
  · rfl
  · rfl
  · split <;> rfl

/-- `oos_alloc` keeps the ready mark. -/
theorem oosAlloc_ready (x : TcpPcb.OosArgs) : (oosAlloc cfg w x).ready=w.ready := by
  unfold oosAlloc
  dsimp only
  split_ifs
  · rfl
  · rfl
  · rfl
  · split <;> rfl

/-- The image of a connection row in the operand block. -/
def readTcb (i : ℕ) : TcpPcb.Work :=
  {w with io := {w.io with
    status := .ok
    vars := (w.tab.tcb i).vars
    ctl := (w.tab.tcb i).ctl
    info := (w.tab.tcb i).info
    state := (w.tab.tcb i).state}}

/-- `load` of a connection in use reads its row. -/
theorem load_eq {w : TcpPcb.Work} {i : ℕ} (hr : w.ready) (hi : i < cfg.tcpPcbs) (hu : (w.tab.tcb i).inUse) :
    load cfg w i=readTcb w i := by
  unfold load readTcb
  rw [if_neg (by simp [hr,hi])]
  simp [hu]

end Lookups

variable {fr : Octets}

section Route

variable (cfg : Config) (s : Side) (a : InputArgs) (fr lip rip : Octets) (ver : ℕ)

/-- The segment of a frame. -/
def segOf : Octets := fr.drop s.io.payloadOff

def tupleOf : TcpPcb.FindArgs := findArgs s (segOf s fr) lip rip ver

/-- The connection its four-tuple names. -/
def connOf : Option ℕ := foundTcb cfg s.tcpPcb (tupleOf s fr lip rip ver) lip rip

/-- The listener it would reach. -/
def listenerOf : Option ℕ := foundListener cfg s.tcpPcb (tupleOf s fr lip rip ver) lip

/-- The machine with the segment read. -/
def parsedBy (sndScale : BitVec 8) : TcpIn.Work :=
  TcpIn.parse s.tcpIn (parseArgs s (segOf s fr) lip rip ver sndScale)

/-- The connection whose machine the segment runs through: bound units, a header that fits, a known tuple, a readable
segment. -/
def segmentOf : Option ℕ :=
  if !s.tcpPcbBound || !s.tcpInBound then none
  else if s.io.payloadLen<20 then none
  else match connOf cfg s fr lip rip ver with
    | none => none
    | some i =>
      if (parsedBy s fr lip rip ver (s.tcpPcb.tab.tcb i).ctl.sndScale).io.status≠.ok then none
      else some i

/-- The path with a connection loaded and the segment read. -/
def loadedAt (i : ℕ) : Side :=
  {s with
    tcpPcb := TcpPcb.load cfg (s.tcpPcb.took s.tcpPcb.tab i) i
    tcpIn := parsedBy s fr lip rip ver (s.tcpPcb.tab.tcb i).ctl.sndScale}

/-- The path in front of a listener with the segment read. -/
def listenedAt (l : ℕ) : Side :=
  {s with
    tcpPcb := (s.tcpPcb.noIndex .err).took s.tcpPcb.tab l
    tcpIn := parsedBy s fr lip rip ver 0}

/-- A SYN as LISTEN takes it: neither a reset nor an acknowledgment. -/
def freshSyn (flags : BitVec 8) : Bool := !hasBit flags tcpRst && !hasBit flags tcpAck && hasBit flags tcpSyn

/-- The path behind the LISTEN state, with a row taken. -/
def openedAt (l : ℕ) : Side :=
  let u := listenRun (listenedAt s fr lip rip ver l) a l
  {u with tcpPcb := TcpPcb.openTcb cfg u.tcpPcb ver}

/-- What the path leaves of a report. -/
structure TcpFrame (s u : Io) : Prop where
  reassembled : u.act.reassembled=s.act.reassembled
  proto : u.proto=s.proto

/-- Every way a segment can go. -/
inductive TcpRoute : Side → Prop
  /-- Dropped or answered; the tables stay as they are. -/
  | ends (tp : TcpPcb.Work) (ti : TcpIn.Work) (io : Io) (htab : tp.tab=s.tcpPcb.tab) (hr : tp.ready=s.tcpPcb.ready)
    (hk : io.pcbKind=s.io.pcbKind ∨ io.pcbKind=.none) (hd : io.act.deliver=s.io.act.deliver)
    (hf : TcpFrame s.io io) : TcpRoute {s with tcpPcb := tp,tcpIn := ti,io := io}
  /-- Run through the machine of the connection it names. -/
  | segment (i : ℕ) (hi : segmentOf cfg s fr lip rip ver=some i) :
    TcpRoute (dTcpSegment cfg (loadedAt cfg s fr lip rip ver i) a i)
  /-- A SYN for a listener, with a row free for it. -/
  | syn (l i : ℕ) (hn : connOf cfg s fr lip rip ver=none)
    (hl : listenerOf cfg s fr lip rip ver=some l)
    (hp : (parsedBy s fr lip rip ver 0).io.status=.ok)
    (hsyn : freshSyn (TcpIn.header (segOf s fr)).flags) (hi : i < cfg.tcpPcbs)
    (hfree : (s.tcpPcb.tab.tcb i).inUse=false)
    (hopen : (openedAt cfg s a fr lip rip ver l).tcpPcb=
      (listenedAt s fr lip rip ver l).tcpPcb.took
        (s.tcpPcb.tab.setTcb i (TcpPcb.Tcb.opened cfg ver)) i) :
    TcpRoute (dTcpAccept cfg (openedAt cfg s a fr lip rip ver l) l i lip rip
      (TcpIn.header (segOf s fr)).dstPort (TcpIn.header (segOf s fr)).srcPort)

theorem listen_synReceived {w : TcpIn.Work} (h : (listen w).io.state=.synReceived) (hs : w.io.state=.listen) :
    w.ctx.ready ∧ freshSyn w.io.seg.flags := by
  unfold TcpIn.listen at h
  by_cases hg : (!w.ctx.ready || decide (w.io.state≠.listen))
  · rw [if_pos hg] at h
    simp [opened,resultClear,hs] at h
  rw [if_neg hg] at h
  have hr : w.ctx.ready := by
    by_contra hr
    simp [hr] at hg
  refine ⟨hr,?_⟩
  unfold freshSyn
  cases hR : hasBit w.io.seg.flags tcpRst <;> cases hA : hasBit w.io.seg.flags tcpAck <;>
    cases hS : hasBit w.io.seg.flags tcpSyn <;>
    simp [hR,hA,hS,begun,opened,resultClear,putAckRst,hs] at h ⊢

theorem parsedBy_flags {sndScale : BitVec 8} (h : (parsedBy s fr lip rip ver sndScale).io.status=.ok) :
    (parsedBy s fr lip rip ver sndScale).io.seg.flags=(header (segOf s fr)).flags := by
  obtain ⟨p,hp,hs,-⟩ := parse_ok h
  have hp' : segOf s fr=p := Option.some.inj hp
  show (parse s.tcpIn _).io.seg.flags=_
  rw [hs,hp']
  rfl

/-- A segment for a listener: nothing is made, or a row is taken for the fresh SYN. -/
theorem dTcpListen_route (l : ℕ) (hn : connOf cfg s fr lip rip ver=none) (hl : listenerOf cfg s fr lip rip ver=some l)
    (hp : (parsedBy s fr lip rip ver 0).io.status=.ok) : TcpRoute cfg s a fr lip rip ver
      (dTcpListen cfg (listenedAt s fr lip rip ver l) a l lip rip
        (header (segOf s fr)).dstPort (header (segOf s fr)).srcPort ver) := by
  unfold dTcpListen
  dsimp only
  split
  · exact TcpRoute.ends _ _ _ rfl rfl (.inr rfl) rfl ⟨rfl,rfl⟩
  rename_i hst
  have hsyn : freshSyn (header (segOf s fr)).flags := by
    rw [←parsedBy_flags s fr lip rip ver hp]
    exact (listen_synReceived (not_not.1 hst) rfl).2
  rcases openTcb_cases
    with ⟨htab,hst',-⟩ | ⟨i,hi,hr,hfree,-,hopen⟩
  · rw [if_pos hst']
    exact TcpRoute.ends _ _ _ htab (openTcb_ready cfg _) (.inr rfl) rfl ⟨rfl,rfl⟩
  have hok : (openTcb cfg _ ver).io.status=.ok := congrArg (fun w => w.io.status) hopen
  have hidx : (openTcb cfg _ ver).io.index=i := congrArg (fun w => w.io.index) hopen
  rw [if_neg (not_not.2 hok),hidx]
  exact TcpRoute.syn l i hn hl hp hsyn hi hfree hopen

variable {cfg s fr lip rip ver} in
/-- The connection a segment runs through is the one its tuple names, and the segment was read. -/
theorem segmentOf_some {i : ℕ} (h : segmentOf cfg s fr lip rip ver=some i) : connOf cfg s fr lip rip ver=some i ∧
      (parsedBy s fr lip rip ver (s.tcpPcb.tab.tcb i).ctl.sndScale).io.status=.ok := by
  unfold segmentOf at h
  split_ifs at h
  split at h
  · cases h
  rename_i k hk
  split_ifs at h with hp
  cases h
  exact ⟨hk,not_not.1 hp⟩

variable {s fr lip rip ver} in
theorem loadedAt_tcpPcb {i : ℕ} (hi : connOf cfg s fr lip rip ver=some i) :
    (loadedAt cfg s fr lip rip ver i).tcpPcb=readTcb (s.tcpPcb.took s.tcpPcb.tab i) i := by
  obtain ⟨hr,hlt,hu,-,-⟩ := foundTcb_some cfg hi
  exact load_eq cfg hr hlt hu

/-- A segment whose connection was found: the load succeeds, and a bad parse drops the segment. -/
theorem dTcpKnown_eq {i : ℕ} (hi : connOf cfg s fr lip rip ver=some i) :
    dTcpKnown cfg {s with tcpPcb := s.tcpPcb.took s.tcpPcb.tab i} a i (segOf s fr) lip rip ver=
      if (parsedBy s fr lip rip ver (s.tcpPcb.tab.tcb i).ctl.sndScale).io.status≠.ok then
        (loadedAt cfg s fr lip rip ver i).drop .short
      else dTcpSegment cfg (loadedAt cfg s fr lip rip ver i) a i := by
  obtain ⟨hr,hlt,hu,-,-⟩ := foundTcb_some cfg hi
  have hl := load_eq cfg (w := s.tcpPcb.took s.tcpPcb.tab i) hr hlt hu
  have hs : (load cfg (s.tcpPcb.took s.tcpPcb.tab i) i).io.ctl.sndScale=(s.tcpPcb.tab.tcb i).ctl.sndScale := by
    rw [hl]
    rfl
  unfold dTcpKnown
  rw [if_neg (by simp [hl,readTcb]),hs]
  rfl

/-- Past its guards the path asks for the connection first and for a listener then. -/
theorem dTcp_eq (hb : (!s.tcpPcbBound || !s.tcpInBound)=false) (hln : ¬s.io.payloadLen<20) : dTcp cfg s a fr lip rip ver=
      match connOf cfg s fr lip rip ver with
      | some i =>
        dTcpKnown cfg {s with tcpPcb := s.tcpPcb.took s.tcpPcb.tab i} a i (segOf s fr) lip rip ver
      | none =>
        let l := listenerOf cfg s fr lip rip ver
        let tp := s.tcpPcb.noIndex .err
        dTcpUnknown cfg {s with tcpPcb := (l.map fun i => tp.took tp.tab i).getD (tp.noIndex .err)} a l
          (segOf s fr) lip rip ver := by
  have hf : find cfg s.tcpPcb (findArgs s (fr.drop s.io.payloadOff) lip rip ver)=
      match connOf cfg s fr lip rip ver with
      | none => s.tcpPcb.noIndex .err
      | some i => s.tcpPcb.took s.tcpPcb.tab i := find_eq cfg s.tcpPcb _ rfl rfl
  have hl : findListener cfg (s.tcpPcb.noIndex .err) (findArgs s (fr.drop s.io.payloadOff) lip rip ver)=
      match listenerOf cfg s fr lip rip ver with
      | none => (s.tcpPcb.noIndex .err).noIndex .err
      | some i => (s.tcpPcb.noIndex .err).took (s.tcpPcb.noIndex .err).tab i :=
    findListener_eq cfg (s.tcpPcb.noIndex .err) _ rfl
  unfold dTcp
  rw [if_neg (by simp [hb]),if_neg hln]
  rw [hf]
  cases connOf cfg s fr lip rip ver with
  | some i => rfl
  | none =>
    rw [if_neg (by simp [TcpPcb.Work.noIndex])]
    rw [hl]
    cases listenerOf cfg s fr lip rip ver <;> rfl

variable {cfg s fr lip rip ver} in
/-- A segment runs through the machine of the connection `segmentOf` says. -/
theorem dTcp_segment {i : ℕ} (h : segmentOf cfg s fr lip rip ver=some i) :
    dTcp cfg s a fr lip rip ver=dTcpSegment cfg (loadedAt cfg s fr lip rip ver i) a i := by
  obtain ⟨hc,hp⟩ := segmentOf_some h
  unfold segmentOf at h
  split_ifs at h with hb hl
  rw [dTcp_eq cfg s a fr lip rip ver (eq_false_iff.2 hb) hl,hc]
  dsimp only
  rw [dTcpKnown_eq cfg s a fr lip rip ver hc,if_neg (by simp [hp])]

theorem dTcp_route : TcpRoute cfg s a fr lip rip ver (dTcp cfg s a fr lip rip ver) := by
  by_cases hb : (!s.tcpPcbBound || !s.tcpInBound)
  · unfold dTcp
    rw [if_pos hb]
    exact TcpRoute.ends s.tcpPcb s.tcpIn _ rfl rfl (.inl rfl) rfl ⟨rfl,rfl⟩
  by_cases hln : s.io.payloadLen<20
  · unfold dTcp
    rw [if_neg hb,if_pos hln]
    exact TcpRoute.ends s.tcpPcb s.tcpIn _ rfl rfl (.inl rfl) rfl ⟨rfl,rfl⟩
  rw [dTcp_eq cfg s a fr lip rip ver (eq_false_iff.2 hb) hln]
  cases hc : connOf cfg s fr lip rip ver with
  | some i =>
    dsimp only
    rw [dTcpKnown_eq cfg s a fr lip rip ver hc]
    split
    · have htp := loadedAt_tcpPcb cfg hc
      refine TcpRoute.ends _ _ _ ?_ ?_ (.inl rfl) rfl ⟨rfl,rfl⟩
      · rw [htp]
        rfl
      · rw [htp]
        rfl
    · rename_i hp
      refine TcpRoute.segment i ?_
      unfold segmentOf
      rw [if_neg hb,if_neg hln,hc]
      exact if_neg hp
  | none =>
    cases hl : listenerOf cfg s fr lip rip ver with
    | none =>
      unfold dTcpUnknown
      dsimp only
      split
      · exact TcpRoute.ends _ _ _ rfl rfl (.inl rfl) rfl ⟨rfl,rfl⟩
      · exact TcpRoute.ends _ _ _ rfl rfl (.inr rfl) rfl ⟨rfl,rfl⟩
    | some l =>
      unfold dTcpUnknown
      dsimp only
      split
      · exact TcpRoute.ends _ _ _ rfl rfl (.inl rfl) rfl ⟨rfl,rfl⟩
      · rename_i hp
        exact dTcpListen_route cfg s a fr lip rip ver l hc hl (not_not.1 hp)

end Route

section Accept

variable (cfg : Config)

/-- Tables that differ in one connection row alone. -/
structure OnlyRow (i : ℕ) (t u : TcpPcb.Tables) : Prop where
  tcb : ∀ j,j≠i → u.tcb j=t.tcb j
  listener : u.listener=t.listener
  oos : u.oos=t.oos

theorem OnlyRow.refl (i : ℕ) (t : TcpPcb.Tables) : OnlyRow i t t := ⟨fun _ _ => rfl,rfl,rfl⟩

theorem OnlyRow.trans {i : ℕ} {t u v : TcpPcb.Tables} (h : OnlyRow i t u) (k : OnlyRow i u v) : OnlyRow i t v :=
  ⟨fun j hj => (k.tcb j hj).trans (h.tcb j hj),k.listener.trans h.listener,k.oos.trans h.oos⟩

theorem OnlyRow.setTcb (i : ℕ) (t : TcpPcb.Tables) (x : TcpPcb.Tcb) : OnlyRow i t (t.setTcb i x) :=
  ⟨fun j hj => by simp [hj],rfl,rfl⟩

/-- One entry that edits the row it is asked for. -/
structure Edits (i : ℕ) (w w' : TcpPcb.Work) : Prop where
  only : OnlyRow i w.tab w'.tab
  row : (w.tab.tcb i).Renamed (w'.tab.tcb i)
  ready : w'.ready=w.ready

theorem Edits.same {i : ℕ} {w w' : TcpPcb.Work} (ht : w'.tab=w.tab) (hr : w'.ready=w.ready) : Edits i w w' :=
  ⟨by rw [ht]; exact OnlyRow.refl i w.tab,by rw [ht]; exact ⟨rfl,rfl,rfl,rfl,rfl,rfl,rfl⟩,hr⟩

theorem Edits.set {i : ℕ} {w w' : TcpPcb.Work} {x : TcpPcb.Tcb} (ht : w'.tab=w.tab.setTcb i x)
    (hr : w'.ready=w.ready) (hx : (w.tab.tcb i).Renamed x) : Edits i w w' :=
  ⟨by rw [ht]; exact OnlyRow.setTcb i w.tab x,by rw [ht]; simpa using hx,hr⟩

theorem Edits.trans {i : ℕ} {w x y : TcpPcb.Work} (h : Edits i w x) (k : Edits i x y) : Edits i w y where
  only := h.only.trans k.only
  row := ⟨k.row.inUse.trans h.row.inUse,k.row.ipVersion.trans h.row.ipVersion,k.row.vars.trans h.row.vars,
    k.row.state.trans h.row.state,k.row.unsent.trans h.row.unsent,k.row.unacked.trans h.row.unacked,
    k.row.ooseq.trans h.row.ooseq⟩
  ready := k.ready.trans h.ready

theorem bind_edits (w : TcpPcb.Work) (x : TcpPcb.AddrArgs) : Edits x.index w (TcpPcb.bind cfg w x) := by
  unfold TcpPcb.bind
  cases x.ip with
  | none => exact Edits.same rfl rfl
  | some ip =>
    split_ifs
    · exact Edits.same rfl rfl
    · exact Edits.same rfl rfl
    · exact Edits.set rfl rfl ⟨rfl,rfl,rfl,rfl,rfl,rfl,rfl⟩
    · exact Edits.same rfl rfl
    · exact Edits.set rfl rfl ⟨rfl,rfl,rfl,rfl,rfl,rfl,rfl⟩

theorem connect_edits (w : TcpPcb.Work) (x : TcpPcb.AddrArgs) : Edits x.index w (connect cfg w x) := by
  unfold connect
  cases x.ip with
  | none => exact Edits.same rfl rfl
  | some ip =>
    dsimp only
    split_ifs
    · exact Edits.same rfl rfl
    · exact Edits.same rfl rfl
    · exact Edits.same rfl rfl
    · exact Edits.same rfl rfl
    · exact Edits.same rfl rfl
    · exact Edits.set rfl rfl ⟨rfl,rfl,rfl,rfl,rfl,rfl,rfl⟩

theorem close_eq {w : TcpPcb.Work} {i : ℕ} (hr : w.ready) (hi : i < cfg.tcpPcbs) (hu : (w.tab.tcb i).inUse)
    (ho : (w.tab.tcb i).ooseq=noneIndex) :
    (close cfg w i).ready ∧ OnlyRow i w.tab (close cfg w i).tab ∧ (close cfg w i).tab.tcb i=.zero := by
  unfold close
  rw [if_neg (by simp [hr,hi]),if_neg (by simp [hu]),if_neg (by simp [ho])]
  refine ⟨hr,⟨?_,rfl,rfl⟩,by simp [TcpPcb.Work.done]⟩
  intro j hj
  simp [TcpPcb.Work.done,sendQueuesFree,queueFree,hj]

/-- The row of a connection a listener made, over the row its name gave it. -/
def madeRow (x : TcpPcb.Tcb) (l : ℕ) (ti : TcpIn.Io) : TcpPcb.Tcb :=
  {x with listener := l,vars := ti.vars,ctl := ti.ctl,state := .synReceived}

/-- What a SYN leaves behind a row that was taken for it: nothing, or a connection in SYN-RECEIVED. -/
theorem dTcpAccept_cases {s : Side} {l i : ℕ} (lip rip : Octets) (lport rport : BitVec 16)
    (hr : s.tcpPcb.ready) (hi : i < cfg.tcpPcbs) (hu : (s.tcpPcb.tab.tcb i).inUse)
    (hs : (s.tcpPcb.tab.tcb i).state=.closed) (ho : (s.tcpPcb.tab.tcb i).ooseq=noneIndex) :
    (∃ tp io,dTcpAccept cfg s l i lip rip lport rport={s with tcpPcb := tp,io := io} ∧
      tp.ready ∧ OnlyRow i s.tcpPcb.tab tp.tab ∧ tp.tab.tcb i=.zero ∧
      io.pcbKind=.none ∧ io.act.deliver=s.io.act.deliver) ∨
    ∃ tp,dTcpAccept cfg s l i lip rip lport rport={s with
          tcpPcb := tp
          tcpIn := {s.tcpIn with io := {s.tcpIn.io with state := .synReceived}}
          io := {s.io with pcbKind := .tcp,pcb := i}} ∧
      tp.ready ∧ OnlyRow i s.tcpPcb.tab tp.tab ∧
      tp.tab.tcb i=madeRow ((nameTcb cfg s i lip rip lport rport).tab.tcb i) l s.tcpIn.io ∧
      tp.io.status=.ok := by
  have hn : Edits i s.tcpPcb (nameTcb cfg s i lip rip lport rport) :=
    (bind_edits cfg s.tcpPcb ⟨some lip,s.bindRand,i,lport,0,s.io.netif⟩).trans (connect_edits cfg _ ⟨some rip,0,i,rport,0,s.io.netif⟩)
  unfold dTcpAccept
  generalize nameTcb cfg s i lip rip lport rport=n at *
  rcases accept_cases with ⟨ht,hr',hst⟩|⟨-,hu',-,hok⟩
  · rw [if_pos hst]
    have hc := close_eq cfg (w := accept cfg n i l) (i := i)
      (by rw [hr',hn.ready,hr]) hi (by rw [ht,hn.row.inUse,hu]) (by rw [ht,hn.row.ooseq,ho])
    refine .inl ⟨_,_,rfl,hc.1,?_,hc.2.2,rfl,rfl⟩
    have ho := hc.2.1
    rw [ht] at ho
    exact hn.only.trans ho
  have hst : (accept cfg n i l).io.status=.ok := by
    rw [hok]
    rfl
  rw [if_neg (by simp [hst]),hok]
  -- the row is still CLOSED, and CLOSED to SYN-RECEIVED is a transition `store` takes
  have hcl : (n.tab.tcb i).state=.closed := by
    rw [hn.row.state,hs]
  refine .inr ⟨_,rfl,?_⟩
  dsimp only [dTcpStore]
  rw [store_eq cfg (by exact hn.ready.trans hr) hi (by simpa [TcpPcb.Work.image,TcpPcb.Work.done] using hu')
    (by simp [TcpPcb.Work.image,TcpPcb.Work.done,hcl]; decide)]
  refine ⟨hn.ready.trans hr,?_,?_,rfl⟩
  · exact hn.only.trans ((OnlyRow.setTcb i _ _).trans (OnlyRow.setTcb i _ _))
  · simp [TcpPcb.Work.image,TcpPcb.Work.done,madeRow]

theorem openedAt_with (s : Side) (a : InputArgs) (fr lip rip : Octets) (ver l : ℕ)
    (tp : TcpPcb.Work) (ti : TcpIn.Work) (io : Io) :
    {openedAt cfg s a fr lip rip ver l with tcpPcb := tp,tcpIn := ti,io := io}=
      {s with tcpPcb := tp,tcpIn := ti,io := io} := by
  rfl

theorem openedAt_accept {s : Side} {a : InputArgs} {ver l i : ℕ}
    (hl : listenerOf cfg s fr lip rip ver=some l) (hi : i < cfg.tcpPcbs) (hop : (openedAt cfg s a fr lip rip ver l).tcpPcb=
      (listenedAt s fr lip rip ver l).tcpPcb.took
        (s.tcpPcb.tab.setTcb i (TcpPcb.Tcb.opened cfg ver)) i) (lport rport : BitVec 16) :
    let u := openedAt cfg s a fr lip rip ver l
    (∃ tp ti io,dTcpAccept cfg u l i lip rip lport rport={s with tcpPcb := tp,tcpIn := ti,io := io} ∧
      tp.ready ∧ OnlyRow i s.tcpPcb.tab tp.tab ∧ tp.tab.tcb i=.zero ∧
      io.pcbKind=.none ∧ io.act.deliver=s.io.act.deliver) ∨
    ∃ tp ti,dTcpAccept cfg u l i lip rip lport rport={s with
          tcpPcb := tp
          tcpIn := ti
          io := {u.io with pcbKind := .tcp,pcb := i}} ∧
      tp.ready ∧ OnlyRow i s.tcpPcb.tab tp.tab ∧
      tp.tab.tcb i=madeRow ((nameTcb cfg u i lip rip lport rport).tab.tcb i) l u.tcpIn.io ∧
      tp.io.status=.ok ∧ ti.io={u.tcpIn.io with state := .synReceived} := by
  intro u
  have hrd : s.tcpPcb.ready := (foundListener_some cfg hl).1
  have ht : u.tcpPcb.tab=s.tcpPcb.tab.setTcb i (TcpPcb.Tcb.opened cfg ver) := by
    rw [hop]
    rfl
  have hrw : u.tcpPcb.tab.tcb i=TcpPcb.Tcb.opened cfg ver := by
    rw [ht]
    simp
  have hr : u.tcpPcb.ready := by
    rw [hop]
    exact hrd
  have ho := OnlyRow.setTcb i s.tcpPcb.tab (TcpPcb.Tcb.opened cfg ver)
  rw [←ht] at ho
  have hw := openedAt_with cfg s a fr lip rip ver l
  rcases dTcpAccept_cases cfg (l := l) lip rip lport rport hr hi (by rw [hrw]; rfl)
    (by rw [hrw]; rfl) (by rw [hrw]; rfl) with ⟨tp,io,he,h1,h2,h3,h4,h5⟩ | ⟨tp,he,h1,h2,h3,h4⟩
  · exact .inl ⟨tp,_,io,he.trans (hw tp u.tcpIn io),h1,ho.trans h2,h3,h4,h5⟩
  · exact .inr ⟨tp,_,he.trans (hw tp _ _),h1,ho.trans h2,h3,h4,rfl⟩

end Accept

section Segment

variable {cfg : Config} {s : Side} {a : InputArgs} {i : ℕ}

/-- A segment is held under a pin of its descriptor, or the tables stay and every pin taken is given back. -/
theorem dTcpHold_cases : (∃ tp ring,dTcpHold cfg s a i={s with tcpPcb := tp,ring := ring} ∧ tp.tab=s.tcpPcb.tab ∧
      tp.ready=s.tcpPcb.ready ∧ (ring=s.ring ∨ (dPin cfg s s.io.netif a.desc).2 ∧
        ring=(dUnpin cfg (dPin cfg s s.io.netif a.desc).1 s.io.netif a.desc).ring)) ∨
    ∃ j < cfg.tcpOoseqEntries,(s.tcpPcb.tab.oos j).inUse=false ∧ i < cfg.tcpPcbs ∧ (s.tcpPcb.tab.tcb i).inUse ∧
      a.desc≠descNone ∧ (dPin cfg s s.io.netif a.desc).2 ∧
      dTcpHold cfg s a i={s with
        tcpPcb := s.tcpPcb.took (oosInsert cfg (s.tcpPcb.tab.setOos j (holdArgs s a i).row) i j) j
        ring := (dPin cfg s s.io.netif a.desc).1.ring
        io := {s.io with act := {s.io.act with pinned := true}}
        pcbRow := Function.update s.pcbRow i {s.pcbRow i with netif := s.io.netif}} := by
  by_cases hg : s.tcpIn.io.res.textLen=0 ∨ a.desc=descNone
  · refine .inl ⟨s.tcpPcb,s.ring,?_,rfl,rfl,.inl rfl⟩
    unfold dTcpHold
    rw [if_pos hg]
  have hd : a.desc≠descNone := fun h => hg (.inr h)
  have hr := dPin_refused cfg s s.io.netif a.desc
  obtain ⟨ring,b,hp⟩ : ∃ ring b,dPin cfg s s.io.netif a.desc=({s with ring := ring},b) :=
    ⟨_,_,Prod.ext (dPin_eq cfg s s.io.netif a.desc) rfl⟩
  unfold dTcpHold
  rw [if_neg hg]
  rw [hp] at hr ⊢
  cases b with
  | false => exact .inl ⟨s.tcpPcb,s.ring,hr rfl,rfl,rfl,.inl rfl⟩
  | true =>
    rcases oosAlloc_cases cfg s.tcpPcb (holdArgs s a i) with ⟨ht,hst⟩|⟨j,hj,hf,hi,hu,-,-,hok⟩
    · simp only [hst,ne_eq,not_false_eq_true,if_true]
      refine .inl ⟨oosAlloc cfg s.tcpPcb (holdArgs s a i),_,dUnpin_eq _ _ _ _,ht,oosAlloc_ready cfg _ _,?_⟩
      exact .inr ⟨trivial,dUnpin_congr cfg {s with ring := ring} _ _ rfl rfl⟩
    have hst : (oosAlloc cfg s.tcpPcb (holdArgs s a i)).io.status=.ok := by
      rw [hok]
      rfl
    simp only [hst,ne_eq,not_true_eq_false,if_false]
    rw [hok]
    exact .inr ⟨j,hj,hf,hi,hu,hd,trivial,rfl⟩

variable (cfg s a) in
/-- What the machine of a loaded connection decides on the segment read. -/
def machineOf : TcpIn.Work :=
  runIn cfg (dTcpLoadIn s s.tcpPcb.io.info.listener a.nowMs).tcpIn

variable (cfg s a i) in
/-- What would be held of the segment. -/
def heldOf : TcpPcb.OosArgs where
  seq := (machineOf cfg s a).io.res.textSeq
  pcb := i
  desc := descHandle s.io.netif a.desc
  offset := BitVec.ofNat 16 (s.io.payloadOff+(machineOf cfg s a).io.res.textOff.toNat)
  len := (machineOf cfg s a).io.res.textLen

variable (cfg s a i) in
/-- The path with the machine's decision reported. -/
def reported : Side := reportIn {s with tcpIn := machineOf cfg s a} i

theorem dTcpSegment_eq : dTcpSegment cfg s a i=dTcpReply cfg (dTcpStore cfg (placeText cfg (reported cfg s a i) a i) i) i := rfl

variable (cfg) in
/-- Where the text of a segment went, tables and rings in front of the store. -/
inductive Placed (s : Side) (a : InputArgs) (i : ℕ) : TcpPcb.Work → (ℕ → Dma.Ring) → Prop
  | none (w : TcpPcb.Work) (ht : w.tab=s.tcpPcb.tab) (hr : w.ready=s.tcpPcb.ready) : Placed s a i w s.ring
  /-- The queue was full, and the pin was given back. -/
  | full (w : TcpPcb.Work) (ht : w.tab=s.tcpPcb.tab) (hr : w.ready=s.tcpPcb.ready)
    (hp : (dPin cfg s s.io.netif a.desc).2) :
    Placed s a i w (dUnpin cfg (dPin cfg s s.io.netif a.desc).1 s.io.netif a.desc).ring
  /-- The text is held under a pin. -/
  | held (j : ℕ) (hj : j < cfg.tcpOoseqEntries) (hfree : (s.tcpPcb.tab.oos j).inUse=false)
    (hh : (machineOf cfg s a).io.res.act.hold) (hd : a.desc≠descNone)
    (hp : (dPin cfg s s.io.netif a.desc).2) :
    Placed s a i (s.tcpPcb.took (TcpPcb.oosInsert cfg (s.tcpPcb.tab.setOos j (heldOf cfg s a i).row) i j) j)
      (dPin cfg s s.io.netif a.desc).1.ring

variable (cfg) in
/-- Of a connection at most its first held segment moves in front of the store. -/
theorem Placed.keeps {s : Side} {a : InputArgs} {i : ℕ} {w : TcpPcb.Work} {ring : ℕ → Dma.Ring} (h : Placed cfg s a i w ring) :
    (∀ k,∃ o,w.tab.tcb k={s.tcpPcb.tab.tcb k with ooseq := o}) ∧ w.tab.listener=s.tcpPcb.tab.listener ∧
      w.ready=s.tcpPcb.ready := by
  cases h with
  | none w ht hr => exact ⟨fun k => ⟨_,by rw [ht]⟩,by rw [ht],hr⟩
  | full w ht hr hp => exact ⟨fun k => ⟨_,by rw [ht]⟩,by rw [ht],hr⟩
  | held j hj hfree hh hd hp =>
    have hrl := oosInsert_relinked cfg (s.tcpPcb.tab.setOos j (heldOf cfg s a i).row) i j
    exact ⟨hrl.tcb,hrl.listener,rfl⟩

variable (cfg) in
/-- What the entry leaves behind. -/
structure Ran (s : Side) (a : InputArgs) (i : ℕ) (u : Side) : Prop where
  /-- The tables are the store of the machine's image over where the text went. -/
  tcpPcb : ∃ w,Placed cfg s a i w u.ring ∧ u.tcpPcb=TcpPcb.store cfg (w.image (machineOf cfg s a).io.vars
    (machineOf cfg s a).io.ctl (machineOf cfg s a).io.state) i
  tcpIn : u.tcpIn=machineOf cfg s a
  named : u.io.pcbKind=.tcp ∧ u.io.pcb=i
  deliver : u.io.act.deliver=(s.io.act.deliver || (machineOf cfg s a).io.res.act.text)
  text : u.io.textSeq=(machineOf cfg s a).io.res.textSeq ∧ u.io.textOff=(machineOf cfg s a).io.res.textOff ∧
    u.io.textLen=(machineOf cfg s a).io.res.textLen
  /-- So is whether a FIN was consumed. -/
  closing : u.io.tcpAct.closing=(machineOf cfg s a).io.res.act.closing
  frame : TcpFrame s.io u.io
  rest : u.ready=s.ready ∧ u.tcpPcbBound=s.tcpPcbBound ∧ u.tcpInBound=s.tcpInBound ∧ u.bindRand=s.bindRand ∧
    u.holdDesc=s.holdDesc ∧ u.holdNetif=s.holdNetif ∧ u.ifRow=s.ifRow

theorem hold_placed : ∃ w ring pinned pcbRow,Placed cfg s a i w ring ∧
      (if (machineOf cfg s a).io.res.act.hold then dTcpHold cfg (reported cfg s a i) a i else reported cfg s a i)=
        {reported cfg s a i with
          tcpPcb := w
          ring := ring
          io := {(reported cfg s a i).io with act := {(reported cfg s a i).io.act with pinned := pinned}}
          pcbRow := pcbRow} := by
  cases hh : (machineOf cfg s a).io.res.act.hold with
  | false => exact ⟨s.tcpPcb,s.ring,_,_,.none s.tcpPcb rfl rfl,rfl⟩
  | true =>
    obtain ⟨hrn,hok⟩ := dPin_congr cfg s s.io.netif a.desc (t := reported cfg s a i) rfl rfl
    rw [if_pos rfl]
    rcases dTcpHold_cases with ⟨tp,ring,he,ht,hr,hring'⟩|⟨k,hk,hf,-,-,hd,hp,he⟩
    · rw [he]
      rcases hring' with rfl|⟨hp,rfl⟩
      · exact ⟨tp,s.ring,_,_,.none tp ht hr,rfl⟩
      have hun := dUnpin_congr cfg (dPin cfg s s.io.netif a.desc).1 s.io.netif a.desc
        (t := (dPin cfg (reported cfg s a i) s.io.netif a.desc).1) hrn
        (by rw [dPin_eq cfg (reported cfg s a i),dPin_eq cfg s]; rfl)
      refine ⟨tp,_,s.io.act.pinned,s.pcbRow,.full tp ht hr (hok.symm.trans hp),?_⟩
      rw [←hun]
      rfl
    · rw [he]
      refine ⟨_,_,true,update s.pcbRow i {s.pcbRow i with netif := s.io.netif},
        .held k hk hf hh hd (hok.symm.trans hp),?_⟩
      rw [←hrn]
      rfl

theorem placeText_placed : ∃ w ring act pcbRow,Placed cfg s a i w ring ∧
      placeText cfg (reported cfg s a i) a i={reported cfg s a i with
        tcpPcb := w
        ring := ring
        io := {(reported cfg s a i).io with act := act}
        pcbRow := pcbRow} ∧
      act.deliver=(s.io.act.deliver || (machineOf cfg s a).io.res.act.text) ∧ act.ackOwed=s.io.act.ackOwed ∧
      act.send=s.io.act.send ∧ act.reassembled=s.io.act.reassembled := by
  obtain ⟨w,ring,pinned,pcbRow,hp,he⟩ := hold_placed
  have hpl : placeText cfg (reported cfg s a i) a i=
      let u := if (machineOf cfg s a).io.res.act.hold then dTcpHold cfg (reported cfg s a i) a i
        else reported cfg s a i
      if u.tcpIn.io.res.act.text then {u with io := {u.io with act := {u.io.act with deliver := true}}} else u := rfl
  rw [hpl,he]
  have hm : (reported cfg s a i).tcpIn=machineOf cfg s a := rfl
  dsimp only
  rw [hm]
  cases (machineOf cfg s a).io.res.act.text with
  | false => exact ⟨w,ring,_,pcbRow,hp,rfl,by rw [Bool.or_false]; rfl,rfl,rfl,rfl⟩
  | true => exact ⟨w,ring,_,pcbRow,hp,rfl,by rw [Bool.or_true],rfl,rfl,rfl⟩

theorem dTcpReply_eq : ∃ reply tcpAct act pcbRow,dTcpReply cfg s i={s with
        io := {s.io with reply := reply,tcpAct := tcpAct,act := act}
        pcbRow := pcbRow} ∧
      tcpAct.closing=s.tcpIn.io.res.act.closing ∧ act.deliver=s.io.act.deliver ∧
      act.reassembled=s.io.act.reassembled := by
  unfold dTcpReply
  dsimp only
  split_ifs <;> exact ⟨_,_,_,_,rfl,rfl,rfl,rfl⟩

variable (cfg s a i) in
theorem dTcpSegment_ran : Ran cfg s a i (dTcpSegment cfg s a i) := by
  obtain ⟨w,ring,act,pcbRow,hp,he,ha,-,-,hq⟩ := placeText_placed
  obtain ⟨reply,tcpAct,act',pcbRow',hr,hc,hd,hd'⟩ := dTcpReply_eq
  rw [dTcpSegment_eq,hr]
  rw [he] at hc hd hd' ⊢
  exact ⟨⟨w,hp,rfl⟩,rfl,⟨rfl,rfl⟩,hd.trans ha,⟨rfl,rfl,rfl⟩,hc,⟨hd'.trans hq,rfl⟩,⟨rfl,rfl,rfl,rfl,rfl,rfl,rfl⟩⟩

variable (s a) in
/-- The machine's block as a segment for a connection is handed to it. -/
def enteredAt (fr lip rip : Octets) (ver i : ℕ) : TcpIn.Work :=
  let row := s.tcpPcb.tab.tcb i
  let p := parsedBy s fr lip rip ver row.ctl.sndScale
  {p with io := {p.io with
    vars := row.vars
    ctl := row.ctl
    state := row.state
    listener := row.listener
    nowMs := a.nowMs}}

theorem machineOf_loadedAt {s : Side} {a : InputArgs} {ver i : ℕ} (hi : connOf cfg s fr lip rip ver=some i) :
    machineOf cfg (loadedAt cfg s fr lip rip ver i) a= runIn cfg (enteredAt s a fr lip rip ver i) := by
  obtain ⟨hr,hlt,hu,-,-⟩ := foundTcb_some cfg hi
  have hl : load cfg (s.tcpPcb.took s.tcpPcb.tab i) i=readTcb (s.tcpPcb.took s.tcpPcb.tab i) i :=
    load_eq cfg hr hlt hu
  unfold machineOf loadedAt
  rw [hl]
  rfl

end Segment

section Deliver

variable (cfg : Config) (s : Side) (i : ℕ)

/-- `oos_load` of a held segment reads its row. -/
theorem oosLoad_cases (w : TcpPcb.Work) (k : ℕ) : (∃ o,oosLoad cfg w k={w with io := {w.io with status := .err,oos := o}} ∧
      ¬(w.ready ∧ k < cfg.tcpOoseqEntries ∧ (w.tab.oos k).inUse)) ∨
    w.ready ∧ k < cfg.tcpOoseqEntries ∧ (w.tab.oos k).inUse ∧
      oosLoad cfg w k={w with io := {w.io with status := .ok,oos := w.tab.oos k}} := by
  unfold oosLoad
  split_ifs with hr hu
  · refine .inl ⟨_,rfl,fun h => ?_⟩
    simp [h.1] at hr
    omega
  · refine .inl ⟨_,rfl,fun h => ?_⟩
    simp [h.2.2] at hu
  · have hr' : w.ready ∧ k < cfg.tcpOoseqEntries := by simpa using hr
    exact .inr ⟨hr'.1,hr'.2,by simpa using hu,rfl⟩

/-- The path once the last re-delivery is unpinned and the connection is loaded. -/
def deliverSide (w : TcpPcb.Work) (io : Io) : Side :=
  {s with
    tcpPcb := w
    io := io
    ring := (dUnpin cfg s s.holdNetif s.holdDesc).ring
    holdDesc := descNone
    holdNetif := netifNone}

/-- The report it starts from. -/
def deliverIo : Io :=
  {s.io.reset with status := .err,pcbKind := .tcp,pcb := i,netif := (s.pcbRow i).netif}

/-- Whether RCV.NXT has reached the first held segment of a connection. -/
def heldReached : Bool :=
  let x := s.tcpPcb.tab.tcb i
  let o := s.tcpPcb.tab.oos x.ooseq
  s.ready && s.tcpPcbBound && i < cfg.tcpPcbs && s.tcpPcb.ready && x.inUse && x.ooseq != noneIndex &&
    x.ooseq < cfg.tcpOoseqEntries && o.inUse && !aheadOf o.seq x.vars.rcvNxt

/-- A connection in use holds nothing, or the first segment it holds starts ahead of RCV.NXT. -/
def HeldAhead : Prop :=
  let x := s.tcpPcb.tab.tcb i
  i < cfg.tcpPcbs ∧ x.inUse ∧ (x.ooseq=noneIndex ∨ aheadOf (s.tcpPcb.tab.oos x.ooseq).seq x.vars.rcvNxt)

/-- Every way `tcp_deliver` can go. -/
inductive DeliverRoute : Side → Prop
  | refused (io : Io) (hact : io.act=.none) (hg : heldReached cfg s i=false) (hc : io.tcpAct=TcpIn.Act.none)
    (hb : io.status=.err) : DeliverRoute {s with io := io}
  | idle (w : TcpPcb.Work) (io : Io) (ht : w.tab=s.tcpPcb.tab) (hr : w.ready=s.tcpPcb.ready) (hact : io.act=.none)
    (hg : heldReached cfg s i=false) (hc : io.tcpAct=TcpIn.Act.none) (hb : io.status=.busy → HeldAhead cfg s i) :
    DeliverRoute (deliverSide cfg s w io)
  /-- RCV.NXT has reached the first held segment, which is freed. -/
  | held (w : TcpPcb.Work) (ht : w.tab=s.tcpPcb.tab) (hr : w.ready) (hi : i < cfg.tcpPcbs)
    (hu : (s.tcpPcb.tab.tcb i).inUse)
    (hv : w.io.vars=(s.tcpPcb.tab.tcb i).vars ∧ w.io.ctl=(s.tcpPcb.tab.tcb i).ctl ∧ w.io.state=(s.tcpPcb.tab.tcb i).state)
    (hj : (s.tcpPcb.tab.tcb i).ooseq < cfg.tcpOoseqEntries)
    (hju : (s.tcpPcb.tab.oos (s.tcpPcb.tab.tcb i).ooseq).inUse)
    (ha : aheadOf (s.tcpPcb.tab.oos (s.tcpPcb.tab.tcb i).ooseq).seq (s.tcpPcb.tab.tcb i).vars.rcvNxt=false)
    (hg : heldReached cfg s i) :
    DeliverRoute (releaseHeld cfg
      (deliverHeld cfg (deliverSide cfg s w (deliverIo s i)) i (s.tcpPcb.tab.oos (s.tcpPcb.tab.tcb i).ooseq)
        (s.tcpPcb.tab.tcb i).vars.rcvNxt)
      (s.tcpPcb.tab.tcb i).ooseq (s.tcpPcb.tab.oos (s.tcpPcb.tab.tcb i).ooseq))

/-- `load` of a row not in use reports a refusal. -/
theorem load_cases (w : TcpPcb.Work) : (∃ io,load cfg w i={w with io := io} ∧ io.status≠.ok ∧
      ¬(w.ready ∧ i < cfg.tcpPcbs ∧ (w.tab.tcb i).inUse)) ∨
    w.ready ∧ i < cfg.tcpPcbs ∧ (w.tab.tcb i).inUse := by
  by_cases hg : w.ready ∧ i < cfg.tcpPcbs ∧ (w.tab.tcb i).inUse
  · exact .inr hg
  refine .inl ⟨(load cfg w i).io,?_⟩
  unfold load
  dsimp only
  split_ifs with hr hu
  · exact ⟨rfl,by simp [TcpPcb.Work.blank],hg⟩
  · exact ⟨rfl,by simp [TcpPcb.Work.blank],hg⟩
  refine absurd ?_ hg
  have hr' : w.ready ∧ i < cfg.tcpPcbs := by simpa using hr
  exact ⟨hr'.1,hr'.2,by simpa using hu⟩

theorem unpinned_eq (io : Io) :
    ({dUnpin cfg {s with io := io} s.holdNetif s.holdDesc with holdDesc := descNone,holdNetif := netifNone} : Side)=
      deliverSide cfg s s.tcpPcb io := by
  have hr := dUnpin_congr cfg s s.holdNetif s.holdDesc (t := {s with io := io}) rfl rfl
  rw [dUnpin_eq,hr]
  rfl

theorem deliverFrom_route (hs : s.ready) (hb : s.tcpPcbBound) :
    DeliverRoute cfg s i (deliverFrom cfg (deliverSide cfg s s.tcpPcb {s.io.reset with status := .err}) i) := by
  unfold deliverFrom
  rcases load_cases cfg i s.tcpPcb with ⟨io,hl,hst,hno⟩|⟨hr,hi,hu⟩
  · have hl' : load cfg (deliverSide cfg s s.tcpPcb {s.io.reset with status := .err}).tcpPcb i=
        {s.tcpPcb with io := io} := hl
    have hg : heldReached cfg s i=false := by
      apply eq_false_iff.2
      intro h
      simp only [heldReached,and_eq_true,decide_eq_true_eq] at h
      exact hno ⟨h.1.1.1.1.1.2,h.1.1.1.1.1.1.2,h.1.1.1.1.2⟩
    simp only [hl']
    rw [if_pos hst]
    exact .idle {s.tcpPcb with io := io} _ rfl rfl rfl hg rfl (nofun)
  have hl : load cfg (deliverSide cfg s s.tcpPcb {s.io.reset with status := .err}).tcpPcb i=
      readTcb s.tcpPcb i := load_eq cfg hr hi hu
  have hh : (readTcb s.tcpPcb i).io.info.ooseq=(s.tcpPcb.tab.tcb i).ooseq := rfl
  simp only [hl,hh]
  rw [if_neg (by simp [readTcb])]
  split
  · rename_i hn
    exact .idle (readTcb s.tcpPcb i) _ rfl rfl rfl (by simp [heldReached,hn]) rfl (fun _ => ⟨hi,hu,.inl hn⟩)
  rename_i hn
  rcases oosLoad_cases cfg (readTcb s.tcpPcb i) (s.tcpPcb.tab.tcb i).ooseq with ⟨o,ho,hno⟩|⟨-,hj,hju,ho⟩
  · have hg : heldReached cfg s i=false := by
      apply eq_false_iff.2
      intro h
      simp only [heldReached,and_eq_true,decide_eq_true_eq] at h
      exact hno ⟨hr,h.1.1.2,h.1.2⟩
    rw [ho,if_pos (by simp)]
    exact .idle _ _ rfl rfl rfl hg rfl (nofun)
  rw [ho,if_neg (by simp)]
  have hju' : (s.tcpPcb.tab.oos (s.tcpPcb.tab.tcb i).ooseq).inUse := hju
  split
  · rename_i ha
    have ha' : aheadOf (s.tcpPcb.tab.oos (s.tcpPcb.tab.tcb i).ooseq).seq (s.tcpPcb.tab.tcb i).vars.rcvNxt := ha
    exact .idle _ _ rfl rfl rfl (by simp [heldReached,ha']) rfl (fun _ => ⟨hi,hu,.inr ha'⟩)
  rename_i ha
  have ha' : aheadOf (s.tcpPcb.tab.oos (s.tcpPcb.tab.tcb i).ooseq).seq (s.tcpPcb.tab.tcb i).vars.rcvNxt=false :=
    eq_false_iff.2 ha
  have hg : heldReached cfg s i := by
    simp only [heldReached,hs,hb,hi,hr,hu,hj,hju',ha',decide_true,Bool.and_self,Bool.not_false,Bool.true_and,
      Bool.and_true,bne_iff_ne]
    exact hn
  exact .held _ rfl hr hi hu ⟨rfl,rfl,rfl⟩ hj hju ha' hg

/-- `tcp_deliver` goes one of those ways. -/
theorem tcpDeliver_route : DeliverRoute cfg s i (tcpDeliver cfg s i) := by
  unfold tcpDeliver
  dsimp only
  split
  · rename_i hr
    have hr' : s.ready=false := by simpa using hr
    exact .refused _ rfl (by simp [heldReached,hr']) rfl rfl
  rename_i hr
  have hr' : s.ready := by simpa using hr
  split
  · rename_i hb
    have hg : heldReached cfg s i=false := by
      apply eq_false_iff.2
      intro h
      simp only [heldReached,and_eq_true,decide_eq_true_eq] at h
      have h1 := h.1.1.1.1.1.1.1.2
      simp [h1] at hb
      omega
    exact .refused _ rfl hg rfl rfl
  · rename_i hb
    have hb' : s.tcpPcbBound := by
      by_contra hn
      simp [hn] at hb
    rw [unpinned_eq]
    exact deliverFrom_route cfg s i hr' hb'

theorem ackScan_frame (n k : ℕ) :
    ∃ tp io pcbRow,ackScan cfg s n k={s with tcpPcb := tp,io := io,pcbRow := pcbRow} ∧ tp.tab=s.tcpPcb.tab ∧
      tp.ready=s.tcpPcb.ready ∧ io.act.deliver=s.io.act.deliver ∧
      (s.io.tcpAct.closing=false → io.tcpAct.closing=false) := by
  induction n generalizing s k with
  | zero => exact ⟨s.tcpPcb,s.io,s.pcbRow,rfl,rfl,rfl,rfl,id⟩
  | succ n ih =>
    unfold ackScan
    have hrd : (load cfg s.tcpPcb k).ready=s.tcpPcb.ready := by
      unfold load
      dsimp only
      split_ifs <;> rfl
    dsimp only
    split
    · exact ih s (k+1)
    split
    · obtain ⟨tp,io,pcbRow,he,ht,hr,hd,hc⟩ := ih {s with
        tcpPcb := load cfg s.tcpPcb k
        pcbRow := update s.pcbRow k {s.pcbRow k with ackOwed := false}} (k+1)
      exact ⟨tp,io,pcbRow,he,ht.trans (load_tab k),hr.trans hrd,hd,hc⟩
    · exact ⟨_,_,_,rfl,load_tab k,hrd,rfl,fun _ => rfl⟩

theorem tcpAckFlush_frame :
    ∃ tp io pcbRow,tcpAckFlush cfg s={s with tcpPcb := tp,io := io,pcbRow := pcbRow} ∧ tp.tab=s.tcpPcb.tab ∧
      tp.ready=s.tcpPcb.ready ∧ io.act.deliver=false ∧ io.tcpAct.closing=false := by
  unfold tcpAckFlush
  split
  · exact ⟨_,_,_,rfl,rfl,rfl,rfl,rfl⟩
  split
  · exact ⟨_,_,_,rfl,rfl,rfl,rfl,rfl⟩
  obtain ⟨tp,io,pcbRow,he,ht,hr,hd,hc⟩ :=
    ackScan_frame cfg {s with io := {s.io.reset with status := .busy}} cfg.tcpPcbs 0
  exact ⟨tp,io,pcbRow,he,ht,hr,hd,hc rfl⟩

end Deliver

end Entries

section Calls

variable (cfg : Config) (s : Stack) (a : InputArgs)

/-- One call, with the application calls `ok` allows. -/
inductive Event (ok : TcpPcb.Call → Prop)
  /-- A frame, and what the units outside answer to it. -/
  | input (e : Env) (a : InputArgs)
  | deliver (pcb : ℕ)
  | ack
  | app (c : TcpPcb.Call) (h : ok c)

/-- Run the dispatcher's TCP path alone. -/
def Stack.onSide (f : Side → Side) : Stack := {s with side := f s.side}

def step {ok : TcpPcb.Call → Prop} (s : Stack) : Event ok → Stack
  | .input e a => input cfg e s a
  | .deliver i => s.onSide fun t => tcpDeliver cfg t i
  | .ack => s.onSide (tcpAckFlush cfg)
  | .app c _ => s.onSide fun t => {t with tcpPcb := TcpPcb.step cfg t.tcpPcb c}

/-- The connection tables of a stack. -/
def Stack.tab : TcpPcb.Tables := s.side.tcpPcb.tab

/-- The TCP path as a segment is handed to it. -/
def Stack.facing (r : Arrival) : Side := {s.side with io := r.io}

theorem handed_side (r : Arrival) :
    (handed cfg s a r).side=dTcp cfg (s.facing r) a r.frame r.lip r.rip r.ipVersion := rfl

/-- A frame that does not reach TCP leaves the path as it is but for rings, reports and interface rows. -/
theorem Off.keeps {cfg : Config} {s u : Stack} {netif : ℕ} {a : InputArgs} (h : Off cfg s netif a u) :
    ∃ ring io ifRow,u.side={s.side with ring := ring,io := io,ifRow := ifRow} ∧ io.Unnamed := by
  cases h with
  | ends io ifRow hio hrow => exact ⟨_,io,ifRow,rfl,hio.1⟩
  | arp io hio x => exact ⟨_,io,_,rfl,hio.1⟩
  | frag4 io hio h4 hn ip4 =>
    obtain ⟨ring,io',re,he,ha⟩ := dIp4Frag_frame cfg (s.withIo io) a ip4
    exact ⟨ring,io',s.side.ifRow,by rw [he]; rfl,ha.unnamed hio.1⟩
  | frag6 io hio hn fr ip6 hfr hip hs =>
    obtain ⟨ring,io',re,he,ha⟩ := dIp6Frag_frame cfg (s.withIo io) a ip6 _ _
    exact ⟨ring,io',s.side.ifRow,by rw [he]; rfl,ha.unnamed hio.1⟩

theorem Placed.sameStates {cfg : Config} {s : Side} {a : InputArgs} {i : ℕ} {w : TcpPcb.Work}
    {ring : ℕ → Dma.Ring} (h : Placed cfg s a i w ring) : TcpPcb.SameStates s.tcpPcb.tab w.tab ∧ w.ready=s.tcpPcb.ready := by
  obtain ⟨ht,hl,hr⟩ := h.keeps
  refine ⟨⟨fun k => ?_,hl⟩,hr⟩
  obtain ⟨o,ho⟩ := ht k
  rw [ho]
  exact ⟨rfl,rfl⟩

/-- What a call that names no connection leaves of the tables. -/
structure Untouched (t u : TcpPcb.Tables) : Prop where
  /-- A connection in use stays as it is. -/
  used : ∀ k,(t.tcb k).inUse → u.tcb k=t.tcb k
  free : ∀ k,(t.tcb k).inUse=false → (u.tcb k).inUse=false
  listener : u.listener=t.listener
  oos : u.oos=t.oos

theorem Untouched.of_eq {t u : TcpPcb.Tables} (h : u=t) : Untouched t u := by
  subst h
  exact ⟨fun _ _ => rfl,fun _ hk => hk,rfl,rfl⟩

theorem OnlyRow.untouched {i : ℕ} {t u : TcpPcb.Tables} (h : OnlyRow i t u) (hf : (t.tcb i).inUse=false)
    (hz : u.tcb i=.zero) : Untouched t u := by
  refine ⟨fun k hk => h.tcb k fun hki => ?_,fun k hk => ?_,h.listener,h.oos⟩
  · rw [hki,hf] at hk
    cases hk
  · by_cases hki : k=i
    · rw [hki,hz]
      rfl
    · rw [h.tcb k hki]
      exact hk

/-- Every way a frame can leave the TCP path. -/
inductive Passage (cfg : Config) (e : Env) (s : Stack) (a : InputArgs) : Side → Prop
  | unnamed (u : Side) (hk : u.io.pcbKind≠.tcp) (ht : Untouched s.tab u.tcpPcb.tab)
    (hr : u.tcpPcb.ready=s.side.tcpPcb.ready)
    (hn : ∀ r,arrival cfg e s a=some r → segmentOf cfg (s.facing r) r.frame r.lip r.rip r.ipVersion=none) :
    Passage cfg e s a u
  /-- The segment went through the machine of a connection. -/
  | segment (r : Arrival) (i : ℕ) (hr : arrival cfg e s a=some r)
    (hi : segmentOf cfg (s.facing r) r.frame r.lip r.rip r.ipVersion=some i) :
    Passage cfg e s a (dTcpSegment cfg (loadedAt cfg (s.facing r) r.frame r.lip r.rip r.ipVersion i) a i)
  | made (r : Arrival) (l i : ℕ) (hr : arrival cfg e s a=some r)
    (hn : connOf cfg (s.facing r) r.frame r.lip r.rip r.ipVersion=none)
    (hl : listenerOf cfg (s.facing r) r.frame r.lip r.rip r.ipVersion=some l)
    (hp : (parsedBy (s.facing r) r.frame r.lip r.rip r.ipVersion 0).io.status=.ok)
    (hsyn : freshSyn (TcpIn.header r.seg).flags) (hi : i < cfg.tcpPcbs) (hfree : (s.tab.tcb i).inUse=false)
    (hopen : (openedAt cfg (s.facing r) a r.frame r.lip r.rip r.ipVersion l).tcpPcb=
      (listenedAt (s.facing r) r.frame r.lip r.rip r.ipVersion l).tcpPcb.took
        (s.tab.setTcb i (TcpPcb.Tcb.opened cfg r.ipVersion)) i) (tp : TcpPcb.Work) (ti : TcpIn.Work)
    (hready : tp.ready) (ho : OnlyRow i s.tab tp.tab)
    (hrow : tp.tab.tcb i=madeRow ((nameTcb cfg (openedAt cfg (s.facing r) a r.frame r.lip r.rip r.ipVersion l) i
      r.lip r.rip (TcpIn.header r.seg).dstPort (TcpIn.header r.seg).srcPort).tab.tcb i) l
      (openedAt cfg (s.facing r) a r.frame r.lip r.rip r.ipVersion l).tcpIn.io)
    (hst : tp.io.status=.ok)
    (hti : ti.io={(openedAt cfg (s.facing r) a r.frame r.lip r.rip r.ipVersion l).tcpIn.io with
      state := .synReceived}) :
    Passage cfg e s a {s.facing r with
      tcpPcb := tp
      tcpIn := ti
      io := {(openedAt cfg (s.facing r) a r.frame r.lip r.rip r.ipVersion l).io with
        pcbKind := .tcp
        pcb := i}}

theorem input_passage (e : Env) (s : Stack) (a : InputArgs) : Passage cfg e s a (input cfg e s a).side := by
  rcases input_route cfg e s a with ⟨r,hr,hd⟩|⟨hr,hd⟩
  · have hkn : (s.facing r).io.pcbKind=.none := (arrival_some hr).kind
    rw [hd,handed_side]
    cases hsg : segmentOf cfg (s.facing r) r.frame r.lip r.rip r.ipVersion with
    | some i =>
      rw [dTcp_segment a hsg]
      exact .segment r i hr hsg
    | none =>
      have hn : ∀ r',arrival cfg e s a=some r' →
          segmentOf cfg (s.facing r') r'.frame r'.lip r'.rip r'.ipVersion=none := by
        intro r' hr'
        rw [hr] at hr'
        cases hr'
        exact hsg
      have hrt := dTcp_route cfg (s.facing r) a r.frame r.lip r.rip r.ipVersion
      generalize dTcp cfg (s.facing r) a r.frame r.lip r.rip r.ipVersion=u at hrt ⊢
      cases hrt with
      | ends tp ti io ht hrd hk hdel hf =>
        have hk' : io.pcbKind=.none := by
          rcases hk with h|h
          · exact h.trans hkn
          · exact h
        exact .unnamed _ (by rw [show ({s.facing r with tcpPcb := tp,tcpIn := ti,io := io} : Side).io=io from rfl,hk']
                             decide) (.of_eq ht) hrd hn
      | segment i hi =>
        rw [hsg] at hi
        cases hi
      | syn l i hc hl hp hsy hlt hf hop =>
        rcases openedAt_accept cfg hl hlt hop (TcpIn.header (segOf (s.facing r) r.frame)).dstPort
          (TcpIn.header (segOf (s.facing r) r.frame)).srcPort with
          ⟨tp,ti,io,he,hrd,ho,hz,hk,-⟩ | ⟨tp,ti,he,hrd,ho,hrw,hst,hti⟩
        · rw [he]
          exact .unnamed _ (by rw [show ({s.facing r with tcpPcb := tp,tcpIn := ti,io := io} : Side).io=io from rfl,hk]
                               decide) (ho.untouched hf hz)
            (hrd.trans (foundListener_some cfg hl).1.symm) hn
        · rw [he]
          exact .made r l i hr hc hl hp hsy hlt hf hop tp ti hrd ho hrw hst hti
  · obtain ⟨ring,io,ifRow,hs,hio⟩ := hd.keeps
    rw [hs]
    refine .unnamed _ hio.1 (.of_eq rfl) rfl fun r hr' => ?_
    rw [hr] at hr'
    cases hr'

section Sample

/-- Operand blocks as a fresh borrow holds them. -/
def Stack.blank : Stack where
  side := {
    ready := false
    tcpPcbBound := false
    tcpInBound := false
    holdDesc := 0
    holdNetif := 0
    ifRow := fun _ => ⟨false,0,0,false⟩
    pcbRow := fun _ => ⟨false,0⟩
    io := Io.reset ⟨.ok,.none,.none,.none,0,0,0,0,0,false,0,0,0,0,0,0,0,0,0,0,TcpIn.Act.none,0,0,0,0,⟨0,0,0⟩⟩
    tcpPcb := ⟨false,.zero,⟨.zero,.zero,.closed,.ok,0,0,.zero,.zero,.zero⟩⟩
    bindRand := 0
    tcpIn := ⟨⟨.zero,.zero,.zero,.closed,0,0,.ok,.zero,⟨0,0,0⟩,⟨TcpIn.Act.none,0,0,0,0,false⟩⟩,⟨false,0,0⟩⟩
    ring := fun _ => ⟨false,false,0,fun _ => ⟨0,false,false⟩⟩}
  bound := ⟨false,false,false,false,false,false,false,false,false,false⟩
  ip4Reass := ⟨false,0,fun _ => ⟨0,0,0,0,0,0,0,0,0,0,.free⟩,fun _ => ⟨0,0,0,0,0,.free⟩,fun _ => ⟨0,0,0,.free⟩,
    ⟨.ok,false,0,0,.free,0,0,0,0,0,false⟩⟩
  ip6Reass := ⟨false,0,0,0,0,fun _ => .zero,fun _ => ⟨0,0,0,0,0,false⟩,fun _ => ⟨0,0,0,false⟩,⟨.ok,.none,false,0,0,0,0,0,0,0,0⟩⟩
  arp := ⟨false,0,0,fun _ => .blank,fun _ => .zero,⟨.ok,0,.free,0,0,0,0,false,false,false,none⟩⟩

/-- A stack with every unit cleared and bound and no ring. -/
def Stack.booted : Stack :=
  let s := clear Stack.blank
  bind {s with
    side := {s.side with tcpPcb := TcpPcb.clear s.side.tcpPcb,tcpIn := TcpIn.clear s.side.tcpIn}
    ip4Reass := Ip4Reass.clear s.ip4Reass
    ip6Reass := Ip6Reass.clear s.ip6Reass
    arp := ArpTable.clear s.arp} ⟨true,true,true,true,true,true,true,true,true,true⟩ true true

/-- A host with one IPv4 address and no transport but TCP. -/
def Env.host (addr : BitVec 32) : Env where
  get := fun _ => none
  find4 := fun d => d==addr
  findAddr6 := fun _ => false
  getAddr6 := fun _ _ => none
  owns4 := fun _ => false
  owns6 := fun _ => false
  igmpFind := fun _ _ => false
  mldFind := fun _ _ => false
  upper := fun _ _ _ => ⟨false,.none,0,false,false,false,.ipProto,0⟩

/-- A word as it goes on the wire. -/
def octets16 (x : BitVec 16) : List (BitVec 8) := [(x>>>8).setWidth 8,x.setWidth 8]

/-- A double word as it goes on the wire. -/
def octets32 (x : BitVec 32) : List (BitVec 8) := octets16 ((x>>>16).setWidth 16)++octets16 (x.setWidth 16)

/-- A segment a peer sends. -/
structure Sent where
  (src dst : BitVec 32)
  (srcPort dstPort : BitVec 16)
  (seq ack : BitVec 32)
  flags : BitVec 8
  data : List (BitVec 8)

/-- The segment with a checksum in it. -/
def Sent.segment (x : Sent) (sum : BitVec 16) : List (BitVec 8) :=
  octets16 x.srcPort++octets16 x.dstPort++octets32 x.seq++octets32 x.ack++[0x50,x.flags]++octets16 1024++
    octets16 sum++[0,0]++x.data

/-- The IPv4 header in front of it, with a checksum in it. -/
def Sent.header (x : Sent) (sum : BitVec 16) : List (BitVec 8) :=
  [0x45,0]++octets16 (BitVec.ofNat 16 (40+x.data.length))++[0,1,0,0,64,6]++octets16 sum++octets32 x.src++octets32 x.dst

/-- The checksum of the segment. -/
def Sent.sum (x : Sent) : BitVec 16 :=
  let len := 20+x.data.length
  ((Checksum.pseudo4 0 6 (.ofList (octets32 x.src)) (.ofList (octets32 x.dst)) (BitVec.ofNat 32 len)).map fun sum =>
    Checksum.final (Checksum.accum sum (.ofList (x.segment 0)) len)).getD 0

/-- The frame it arrives in. -/
def Sent.frame (x : Sent) : List (BitVec 8) :=
  List.replicate 12 0++[8,0]++x.header (Checksum.final (Checksum.accum 0 (.ofList (x.header 0)) 20))++x.segment x.sum

/-- The operands of the call that brings it in. -/
def Sent.args (x : Sent) (desc netif : ℕ) : InputArgs := ⟨some (.ofList x.frame),54+x.data.length,none,0,0,desc,netif⟩

end Sample

end Calls

end IdemIp.Dispatch
