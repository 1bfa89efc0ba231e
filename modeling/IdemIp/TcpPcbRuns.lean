import IdemIp.TcpPcbQueues

/-!
# Clashes, backlogs and refusals over runs of the tables

Two connections clash when a lookup could answer with either. A bind to a named port
looks for nothing, and may come after a connect. `accept` counts the connections in
SYN-RECEIVED on a listener. An entry either reports OK or leaves every table as it
found it.
-/

namespace IdemIp.TcpPcb

section Clashes

open IndexChain StepRun

variable (cfg : Config)

/-- What a lookup reads of a row, the rest zero. -/
def Tcb.name (x : Tcb) : Tcb :=
  {Tcb.zero with
    localIp := x.localIp
    remoteIp := x.remoteIp
    localPort := x.localPort
    remotePort := x.remotePort
    localZone := x.localZone
    remoteZone := x.remoteZone
    netif := x.netif
    ipVersion := x.ipVersion
    inUse := x.inUse}

/-- Two rows one tuple may find; zones are compared over IPv6 only, as a lookup does. -/
def clashes (x y : Tcb) : Bool :=
  x.inUse && y.inUse && y.ipVersion==x.ipVersion && (x.netif==0 || y.netif==0 || x.netif==y.netif) &&
    y.localPort==x.localPort && y.remotePort==x.remotePort && x.remotePort != 0 &&
    y.localIp.bytesEq x.localIp (addrBytes x.ipVersion) && y.remoteIp.bytesEq x.remoteIp (addrBytes x.ipVersion) &&
    (x.ipVersion != 6 || x.localZone==y.localZone && x.remoteZone==y.remoteZone)

/-- What two clashing rows share. -/
structure Clash (x y : Tcb) : Prop where
  inUse : x.inUse ∧ y.inUse
  ipVersion : y.ipVersion=x.ipVersion
  netif : x.netif=0 ∨ y.netif=0 ∨ x.netif=y.netif
  port : y.localPort=x.localPort ∧ y.remotePort=x.remotePort ∧ x.remotePort≠0
  ip : y.localIp.bytesEq x.localIp (addrBytes x.ipVersion) ∧ y.remoteIp.bytesEq x.remoteIp (addrBytes x.ipVersion)
  zone : x.ipVersion=6 → x.localZone=y.localZone ∧ x.remoteZone=y.remoteZone

variable {x y : Tcb}

theorem clashes_iff : clashes x y ↔ Clash x y := by
  simp only [clashes,Bool.and_eq_true,Bool.or_eq_true,beq_iff_eq,bne_iff_ne]
  constructor
  · rintro ⟨⟨⟨⟨⟨⟨⟨⟨⟨hx,hy⟩,hv⟩,hn⟩,hl⟩,hr⟩,hz⟩,hli⟩,hri⟩,hzn⟩
    refine ⟨⟨hx,hy⟩,hv,or_assoc.1 hn,⟨hl,hr,hz⟩,⟨hli,hri⟩,fun h6 => ?_⟩
    exact hzn.resolve_left (not_not.2 h6)
  · intro h
    refine ⟨⟨⟨⟨⟨⟨⟨⟨h.inUse,h.ipVersion⟩,or_assoc.2 h.netif⟩,h.port.1⟩,h.port.2.1⟩,h.port.2.2⟩,h.ip.1⟩,h.ip.2⟩,?_⟩
    by_cases h6 : x.ipVersion=6
    · exact .inr (h.zone h6)
    · exact .inl h6

theorem Clash.symm (h : Clash x y) : Clash y x := by
  have hf : ∀ {a b : Octets} {n : ℕ},a.bytesEq b n → b.bytesEq a n := fun hab =>
    Octets.bytesEq_iff.2 fun k hk => (Octets.bytesEq_iff.1 hab k hk).symm
  refine ⟨h.inUse.symm,h.ipVersion.symm,?_,⟨h.port.1.symm,h.port.2.1.symm,?_⟩,?_,fun h6 => ?_⟩
  · rcases h.netif with hn|hn|hn
    · exact .inr (.inl hn)
    · exact .inl hn
    · exact .inr (.inr hn.symm)
  · rw [h.port.2.1]
    exact h.port.2.2
  · rw [h.ipVersion]
    exact ⟨hf h.ip.1,hf h.ip.2⟩
  · obtain ⟨hl,hr⟩ := h.zone (h.ipVersion ▸ h6)
    exact ⟨hl.symm,hr.symm⟩

def Unique (t : Tables) : Prop := ∀ i < cfg.tcpPcbs,∀ j < cfg.tcpPcbs,clashes (t.tcb i) (t.tcb j) → i=j

/-- No lookup for a named remote port has two candidates. -/
def OneCandidate (t : Tables) : Prop :=
  ∀ (a : FindArgs) (localIp remoteIp : Octets),a.remotePort≠0 → ∀ i < cfg.tcpPcbs,∀ j < cfg.tcpPcbs,
    tcbMatches (t.tcb i) a localIp remoteIp (addrBytes a.ipVersion) →
    tcbMatches (t.tcb j) a localIp remoteIp (addrBytes a.ipVersion) → i=j

theorem tcbMatches_true {a : FindArgs} {lip rip : Octets} {n : ℕ} (h : tcbMatches x a lip rip n) :
    x.inUse ∧ x.ipVersion=a.ipVersion ∧ (x.localPort=a.localPort ∧ x.remotePort=a.remotePort) ∧
      (x.netif=0 ∨ x.netif=a.netif) ∧ (x.localIp.bytesEq lip n ∧ x.remoteIp.bytesEq rip n) ∧
      (a.ipVersion=6 → x.localZone=a.localZone ∧ x.remoteZone=a.remoteZone) := by
  unfold tcbMatches at h
  split_ifs at h with hv hp hn hi hz
  simp only [Bool.or_eq_true,Bool.not_eq_true',bne_iff_ne,not_or,Bool.not_eq_false,not_not] at hv hp hi
  simp only [Bool.and_eq_true,bne_iff_ne,not_and,not_not] at hn
  refine ⟨hv.1,hv.2,hp,?_,hi,fun h6 => ?_⟩
  · by_cases h0 : x.netif=0
    · exact .inl h0
    · exact .inr (hn h0)
  · simpa [h6] using hz

variable {t : Tables}

theorem Unique.oneCandidate (h : Unique cfg t) : OneCandidate cfg t := by
  intro a lip rip hpr i hi j hj hmi hmj
  obtain ⟨hiu,hiv,hip,hin,hii,hiz⟩ := tcbMatches_true hmi
  obtain ⟨hju,hjv,hjp,hjn,hji,hjz⟩ := tcbMatches_true hmj
  refine h i hi j hj (clashes_iff.2 ⟨⟨hiu,hju⟩,hjv.trans hiv.symm,?_,?_,?_,fun h6 => ?_⟩)
  · rcases hin with hin|hin
    · exact .inl hin
    · rcases hjn with hjn|hjn
      · exact .inr (.inl hjn)
      · exact .inr (.inr (hin.trans hjn.symm))
  · refine ⟨hjp.1.trans hip.1.symm,hjp.2.trans hip.2.symm,?_⟩
    rw [hip.2]
    exact hpr
  · rw [hiv]
    have hm : ∀ {p q r : Octets} {n : ℕ},p.bytesEq r n → q.bytesEq r n → q.bytesEq p n := fun hp hq =>
      Octets.bytesEq_iff.2 fun k hk => (Octets.bytesEq_iff.1 hq k hk).trans (Octets.bytesEq_iff.1 hp k hk).symm
    exact ⟨hm hii.1 hji.1,hm hii.2 hji.2⟩
  · have h6' : a.ipVersion=6 := hiv.symm.trans h6
    exact ⟨(hiz h6').1.trans (hjz h6').1.symm,(hiz h6').2.trans (hjz h6').2.symm⟩

theorem unique_congr {u : Tables} (h : ∀ k,(u.tcb k).name=(t.tcb k).name) : Unique cfg u ↔ Unique cfg t := by
  have hn : ∀ x y : Tcb,clashes x y=clashes x.name y.name := fun _ _ => rfl
  refine forall₂_congr fun i _ => forall₂_congr fun j _ => ?_
  rw [hn (u.tcb i) (u.tcb j),hn (t.tcb i) (t.tcb j),h i,h j]

variable {i : ℕ}

/-- Overwriting a row keeps connections apart exactly when the new one clashes with no other. -/
theorem unique_setTcb (h : Unique cfg t) (hi : i < cfg.tcpPcbs) :
    Unique cfg (t.setTcb i x) ↔ ∀ j < cfg.tcpPcbs,j≠i → clashes x (t.tcb j)=false := by
  constructor
  · intro hu j hj hji
    by_contra hc
    refine hji (hu i hi j hj ?_).symm
    rw [Tables.setTcb_tcb,Tables.setTcb_tcb,if_pos rfl,if_neg hji]
    simpa using hc
  · intro hx j hj k hk hc
    rw [Tables.setTcb_tcb,Tables.setTcb_tcb] at hc
    by_cases hji : j=i
    · by_cases hki : k=i
      · rw [hji,hki]
      · rw [if_pos hji,if_neg hki,hx k hk hki] at hc
        cases hc
    by_cases hki : k=i
    · rw [if_neg hji,if_pos hki] at hc
      have hb := clashes_iff.2 (clashes_iff.1 hc).symm
      rw [hx j hj hji] at hb
      cases hb
    · rw [if_neg hji,if_neg hki] at hc
      exact h j hj k hk hc

/-- The row a bind leaves. -/
def rebound (x : Tcb) (a : AddrArgs) (ip : Octets) (port : BitVec 16) : Tcb :=
  {x with
    localIp := ip.padded (addrBytes x.ipVersion)
    localPort := port
    localZone := a.zone
    netif := a.netif}

/-- Whether a row clashes with another than the one it is meant for. -/
def clashesIn (t : Tables) (i : ℕ) (x : Tcb) : Bool :=
  (List.range cfg.tcpPcbs).any fun j => j != i && clashes x (t.tcb j)

theorem clashesIn_eq_false : clashesIn cfg t i x=false ↔ ∀ j < cfg.tcpPcbs,j≠i → clashes x (t.tcb j)=false := by
  simp [clashesIn]

/-- Whether a call binds a connection to a named port, and to ends another one holds. -/
def rebinds (w : Work) : Call → Bool
  | .bind a =>
    match a.ip with
    | none => false
    | some ip =>
      w.ready && a.index < cfg.tcpPcbs && nameable (w.tab.tcb a.index) && a.port != 0 &&
        clashesIn cfg w.tab a.index (rebound (w.tab.tcb a.index) a ip a.port)
  | _ => false

theorem portScan_free (t : Tables) (except n : ℕ) (port : BitVec 16) (h : portScan cfg t except n port≠0) :
    portTaken cfg t (portScan cfg t except n port) except=false := by
  induction n generalizing port with
  | zero => exact absurd rfl h
  | succ n ih =>
    unfold portScan at h ⊢
    by_cases hp : (!portTaken cfg t port except && !portListening cfg t port)
    · rw [if_pos hp]
      simp only [Bool.and_eq_true,Bool.not_eq_true'] at hp
      exact hp.1
    · rw [if_neg hp] at h ⊢
      exact ih (portEph (port+1)) h

theorem clashesIn_of_free (h : portTaken cfg t x.localPort i=false) : clashesIn cfg t i x=false := by
  refine (clashesIn_eq_false cfg).2 fun j hj hji => ?_
  by_contra hc
  have hcl := clashes_iff.1 (by simpa using hc)
  simp only [portTaken,List.any_eq_false,List.mem_range] at h
  exact h j hj (by simp [hcl.inUse.2,hji,hcl.port.1])

/-- The ways a bind may go: it is refused, it takes the port it names, or it draws a free one. -/
theorem bind_cases {w : Work} {a : AddrArgs} : (bind cfg w a).tab=w.tab ∧ rebinds cfg w (.bind a)=false ∨
      ∃ ip port,a.index < cfg.tcpPcbs ∧ (bind cfg w a).tab=w.tab.setTcb a.index (rebound (w.tab.tcb a.index) a ip port) ∧
        (rebinds cfg w (.bind a)=clashesIn cfg w.tab a.index (rebound (w.tab.tcb a.index) a ip port) ∨
          rebinds cfg w (.bind a)=false ∧ portTaken cfg w.tab port a.index=false) := by
  cases hip : a.ip with
  | none => exact .inl ⟨by simp [bind,hip,Work.noPort],by simp [rebinds,hip]⟩
  | some ip =>
    by_cases hr : w.ready ∧ a.index < cfg.tcpPcbs
    · have hr' : ¬(!w.ready || decide (cfg.tcpPcbs≤a.index)) := by simpa using hr
      by_cases hn : nameable (w.tab.tcb a.index)
      · by_cases hp : a.port=0
        · have hno : rebinds cfg w (.bind a)=false := by simp [rebinds,hip,hp]
          by_cases hd : portDraw cfg w.tab a.index a.rand=0
          · refine .inl ⟨?_,hno⟩
            simp only [bind,hip]
            rw [if_neg hr',if_neg (by simp [hn]),if_neg (not_not.2 hp),if_pos hd]
            rfl
          refine .inr ⟨ip,portDraw cfg w.tab a.index a.rand,hr.2,?_,.inr ⟨hno,?_⟩⟩
          · simp only [bind,hip]
            rw [if_neg hr',if_neg (by simp [hn]),if_neg (not_not.2 hp),if_neg hd]
            rfl
          · exact portScan_free cfg w.tab a.index 32768 (portEph (a.rand.truncate 16)) hd
        · have hp' : (a.port != 0) := bne_iff_ne.2 hp
          refine .inr ⟨ip,a.port,hr.2,?_,.inl (by simp only [rebinds,hip,hr.1,hr.2,hn,hp',decide_true,Bool.true_and])⟩
          simp only [bind,hip]
          rw [if_neg hr',if_neg (by simp [hn]),if_pos hp]
          rfl
      · exact .inl ⟨by simp [bind,hip,hn,Work.noPort],by simp [rebinds,hip,hn]⟩
    · refine .inl ⟨?_,?_⟩
      · have hr' : (!w.ready || decide (cfg.tcpPcbs≤a.index)) := by
          by_contra hc
          exact hr (by simpa using hc)
        simp only [bind,hip]
        rw [if_pos hr']
        rfl
      · by_contra hc
        simp only [rebinds,hip,Bool.not_eq_false,Bool.and_eq_true,decide_eq_true_eq] at hc
        exact hr hc.1.1.1

variable {w : Work}

/-- A bind keeps connections apart unless it names a port and ends another connection holds. -/
theorem bind_unique_iff (a : AddrArgs) (h : Unique cfg w.tab) :
    Unique cfg (bind cfg w a).tab ↔ rebinds cfg w (.bind a)=false := by
  rcases bind_cases cfg with ⟨ht,hno⟩|⟨ip,port,hi,ht,hre|⟨hno,hf⟩⟩
  · rw [ht]
    exact iff_of_true h hno
  · rw [ht,unique_setTcb cfg h hi,hre,clashesIn_eq_false]
  · rw [ht,unique_setTcb cfg h hi,←clashesIn_eq_false]
    exact iff_of_true (clashesIn_of_free cfg hf) hno

/-- `connect` keeps them apart. -/
theorem connect_unique (a : AddrArgs) (h : Unique cfg w.tab) : Unique cfg (connect cfg w a).tab := by
  unfold connect
  cases a.ip with
  | none => exact h
  | some ip =>
    dsimp only
    split_ifs with hr hn hp hi ht
    · exact h
    · exact h
    · exact h
    · exact h
    · exact h
    have hri : w.ready ∧ a.index < cfg.tcpPcbs := by simpa using hr
    refine (unique_setTcb cfg h hri.2).2 fun j hj hji => ?_
    by_contra hc
    have hcl := clashes_iff.1 (by simpa using hc)
    have hpr : holdsPair (w.tab.tcb j) (w.tab.tcb a.index) ip a.port := by
      have hrm := hcl.ip.2
      rw [Octets.bytesEq_padded] at hrm
      simp [holdsPair,hcl.port.1,hcl.port.2.1,hcl.ip.1,hrm]
    simp only [pairTaken,Bool.not_eq_true,List.any_eq_false,List.mem_range] at ht
    have hj' := ht j hj
    simp [hcl.inUse.2,hji,hcl.ipVersion,hpr] at hj'

theorem Unique.setTcb_unnamed (h : Unique cfg t) (hi : i < cfg.tcpPcbs)
    (hx : x.inUse=false ∨ x.remotePort=0) : Unique cfg (t.setTcb i x) := by
  refine (unique_setTcb cfg h hi).2 fun j _ _ => ?_
  by_contra hc
  have hcl := clashes_iff.1 (by simpa using hc)
  rcases hx with hx|hx
  · exact absurd (hx.symm.trans hcl.inUse.1) (by decide)
  · exact hcl.port.2.2 hx

/-- One call keeps connections apart exactly when it does not bind one onto another. -/
theorem step_unique_iff (w : Work) (c : Call) (h : Unique cfg w.tab) :
    Unique cfg (step cfg w c).tab ↔ rebinds cfg w c=false := by
  have hs : (∀ k,((step cfg w c).tab.tcb k).name=(w.tab.tcb k).name) → Unique cfg (step cfg w c).tab :=
    fun hk => (unique_congr cfg hk).2 h
  cases c with
  | bind a => exact bind_unique_iff cfg a h
  | connect a => exact iff_of_true (connect_unique cfg a h) rfl
  | clear => exact iff_of_true (nofun) rfl
  | openTcb v =>
    refine iff_of_true ?_ rfl
    rcases openTcb_cases with ⟨ht,-⟩|⟨i,hi,-,-,-,he⟩
    · exact hs fun k => by rw [show (step cfg w (.openTcb v)).tab=w.tab from ht]
    show Unique cfg (openTcb cfg w v).tab
    rw [he]
    exact h.setTcb_unnamed cfg hi (.inr rfl)
  | close p =>
    refine iff_of_true ?_ rfl
    rcases close_cases p with ht|⟨hi,-,-,he⟩
    · exact hs fun k => by rw [show (step cfg w (.close p)).tab=w.tab from ht]
    show Unique cfg (close cfg w p).tab
    rw [he]
    refine ((unique_congr cfg fun k => ?_).2 h).setTcb_unnamed cfg hi (.inl rfl)
    exact (sendQueuesFree_sameHeld cfg w.tab p).keeps Tcb.name (fun _ => rfl) k
  | store p vars ctl state =>
    refine iff_of_true (hs fun k => ?_) rfl
    rcases store_cases p with ⟨ht,-⟩|⟨-,-,-,-,he⟩
    · rw [show (step cfg w (.store p vars ctl state)).tab=w.tab from ht]
    show ((store cfg (w.image vars ctl state) p).tab.tcb k).name=_
    rw [he]
    exact w.tab.setTcb_keeps p Tcb.name (by rfl) k
  | opt a =>
    refine iff_of_true (hs fun k => ?_) rfl
    show ((opt cfg w a).tab.tcb k).name=_
    unfold opt
    dsimp only
    split_ifs
    · rfl
    · rfl
    · exact w.tab.setTcb_keeps a.index Tcb.name (by rfl) k
  | accept p l =>
    refine iff_of_true (hs fun k => ?_) rfl
    show ((accept cfg w p l).tab.tcb k).name=_
    rcases accept_cases with ⟨ht,-⟩|⟨-,-,-,he⟩
    · rw [ht]
    · rw [he]
      exact w.tab.setTcb_keeps p Tcb.name (by rfl) k
  | listen a =>
    refine iff_of_true (hs fun k => ?_) rfl
    show ((listen cfg w a).tab.tcb k).name=_
    rw [listen_tab]
  | unlisten i =>
    refine iff_of_true (hs fun k => ?_) rfl
    show ((unlisten cfg w i).tab.tcb k).name=_
    rw [unlisten_tab]
  | _ => exact iff_of_true (hs fun k => (step_sameRows cfg rfl).keeps Tcb.name (fun _ => rfl) k) rfl

/-- Over a run no two connections clash exactly when none did at first and no call binds one onto the ends of another. -/
theorem run_unique_iff (w : Work) (cs : List Call) :
    (∀ n,Unique cfg (run (step cfg) w (cs.take n)).tab ∧ OneCandidate cfg (run (step cfg) w (cs.take n)).tab) ↔
      Unique cfg w.tab ∧ Along (step cfg) (fun x c => rebinds cfg x c=false) w cs := by
  have hevery : (∀ n,Unique cfg (run (step cfg) w (cs.take n)).tab) ↔
      Unique cfg w.tab ∧ Along (step cfg) (fun x c => rebinds cfg x c=false) w cs :=
    every_iff_along (fun x c hx => step_unique_iff cfg x c hx)
  rw [←hevery]
  exact ⟨fun h n => (h n).1,fun h n => ⟨h n,(h n).oneCandidate⟩⟩

/-- Two connections to one peer, from ports 1000 and 2000, the second then bound to port 1000 too. -/
def rebinding : List Call :=
  [.openTcb 4,.openTcb 4,.bind ⟨some (.ofList [10,0,0,1]),0,0,1000,0,0⟩,.connect ⟨some (.ofList [10,0,0,2]),0,0,80,0,0⟩,
    .bind ⟨some (.ofList [10,0,0,1]),0,1,2000,0,0⟩,.connect ⟨some (.ofList [10,0,0,2]),0,1,80,0,0⟩,
    .bind ⟨some (.ofList [10,0,0,1]),0,1,1000,0,0⟩]

/-- Every call of it succeeds, and the two rows then hold one pair of ends. -/
theorem rebinding_clashes :
    let w := run (step .shipped) (clear ⟨false,.zero,⟨.zero,.zero,.closed,.err,0,0,.zero,.zero,.zero⟩⟩) rebinding
    w.io.status=.ok ∧ clashes (w.tab.tcb 0) (w.tab.tcb 1)=true ∧ ¬Unique .shipped w.tab := by
  refine ⟨by decide +kernel,by decide +kernel,fun h => ?_⟩
  exact absurd (h 0 (by decide) 1 (by decide) (by decide +kernel)) (by decide)

end Clashes

section Backlogs

open IndexChain StepRun Bool Tables List

section Books

variable (cfg : Config)

/-- The tables, and which connections were accepted through the listener that now has their index. -/
structure Books where
  work : Work
  /-- Accepted through the listener the row records, and not through one that had its index before. -/
  through : ℕ → Bool

variable (b : Books)

/-- One call: `accept` notes the connection, and a new listener starts with none. -/
def bookStep (c : Call) : Books :=
  let w := step cfg b.work c
  ⟨w,fun p =>
    match c with
    | .accept i _ => if p=i ∧ w.io.status=.ok then true else b.through p
    | .listen _ => if w.io.status=.ok ∧ (b.work.tab.tcb p).listener=w.io.index then false else b.through p
    | _ => b.through p⟩

/-- Whether a connection counts against a listener. -/
def charged (l p : ℕ) : Bool :=
  (b.work.tab.tcb p).inUse && (b.work.tab.tcb p).state==.synReceived && (b.work.tab.tcb p).listener==l && b.through p

/-- Connections a listener holds in SYN-RECEIVED. -/
def held (l : ℕ) : ℕ := (List.range cfg.tcpPcbs).countP (charged b l)

/-- No listener holds more than its backlog. -/
def Bounded : Prop :=
  ∀ l < cfg.tcpListenPcbs,(b.work.tab.listener l).inUse=true → held cfg b l≤(b.work.tab.listener l).backlog

/-- Whether a call stores SYN-RECEIVED over another state of a connection whose listener is full. -/
def overfills : Call → Bool
  | .store p _ _ state =>
    let x := b.work.tab.tcb p
    b.work.ready && p < cfg.tcpPcbs && x.inUse && transitionOk x.state state && state==.synReceived &&
      x.state != .synReceived && b.through p && x.listener < cfg.tcpListenPcbs && (b.work.tab.listener x.listener).inUse &&
      (b.work.tab.listener x.listener).backlog≤held cfg b x.listener
  | _ => false

/-- What counting reads of a row. -/
def Tcb.charge (x : Tcb) : Bool × TcpState × ℕ := (x.inUse,x.state,x.listener)

theorem charged_congr {b b' : Books} {l p : ℕ} (h : (b'.work.tab.tcb p).charge=(b.work.tab.tcb p).charge)
    (ht : b'.through p=b.through p) : charged b' l p=charged b l p := by
  have hu : (b'.work.tab.tcb p).inUse=(b.work.tab.tcb p).inUse := congrArg Prod.fst h
  have hs : (b'.work.tab.tcb p).state=(b.work.tab.tcb p).state := congrArg (fun c => c.2.1) h
  have hl : (b'.work.tab.tcb p).listener=(b.work.tab.tcb p).listener := congrArg (fun c => c.2.2) h
  unfold charged
  rw [hu,hs,hl,ht]

theorem Bounded.mono {b b' : Books} (h : Bounded cfg b)
    (hl : ∀ l < cfg.tcpListenPcbs,(b'.work.tab.listener l).inUse → b'.work.tab.listener l=b.work.tab.listener l)
    (hc : ∀ l < cfg.tcpListenPcbs,∀ p < cfg.tcpPcbs,charged b' l p → charged b l p) : Bounded cfg b' := by
  intro l hlt hu
  have hls := hl l hlt hu
  have hle : held cfg b' l≤held cfg b l :=
    countP_mono_left fun p hp hcp => hc l hlt p (mem_range.1 hp) hcp
  rw [hls] at hu ⊢
  exact hle.trans (h l hlt hu)

theorem Bounded.same {b b' : Books} (h : Bounded cfg b) (hl : b'.work.tab.listener=b.work.tab.listener)
    (hr : ∀ p,(b'.work.tab.tcb p).charge=(b.work.tab.tcb p).charge) (ht : b'.through=b.through) : Bounded cfg b' := by
  refine h.mono cfg (fun l _ _ => by rw [hl]) fun l _ p _ hc => ?_
  rwa [charged_congr (hr p) (congrFun ht p)] at hc

theorem step_charge {w : Work} {c : Call} (hc : c.keepsRows ∨ (∃ a,c=.opt a) ∨ (∃ a,c=.bind a) ∨ ∃ a,c=.connect a)
    (p : ℕ) : ((step cfg w c).tab.tcb p).charge=(w.tab.tcb p).charge := by
  rcases hc with hc|⟨a,rfl⟩|⟨a,rfl⟩|⟨a,rfl⟩
  · exact (step_sameRows cfg hc).keeps Tcb.charge (fun _ => rfl) p
  · show ((opt cfg w a).tab.tcb p).charge=_
    unfold opt
    dsimp only
    split_ifs
    · rfl
    · rfl
    · exact w.tab.setTcb_keeps a.index Tcb.charge (by rfl) p
  · show ((bind cfg w a).tab.tcb p).charge=_
    unfold bind
    cases a.ip with
    | none => rfl
    | some ip =>
      split_ifs
      · rfl
      · rfl
      · exact w.tab.setTcb_keeps a.index Tcb.charge (by rfl) p
      · rfl
      · exact w.tab.setTcb_keeps a.index Tcb.charge (by rfl) p
  · show ((connect cfg w a).tab.tcb p).charge=_
    unfold connect
    cases a.ip with
    | none => rfl
    | some ip =>
      dsimp only
      split_ifs
      · rfl
      · rfl
      · rfl
      · rfl
      · rfl
      · exact w.tab.setTcb_keeps a.index Tcb.charge (by rfl) p

/-- A new listener starts with nothing held, and the others keep what they hold. -/
theorem listen_bounded {b : Books} (a : ListenArgs) (h : Bounded cfg b) : Bounded cfg (bookStep cfg b (.listen a)) := by
  rcases listen_cases with ⟨ht,hs⟩|⟨i,x,ht,-,hs,hi⟩
  · refine h.same cfg (congrArg listener ht) (fun p => ?_) ?_
    · exact congrArg (fun t => (t.tcb p).charge) ht
    · funext p
      exact if_neg fun hc => hs hc.1
  have htb : (bookStep cfg b (.listen a)).work.tab=b.work.tab.setListener i x := ht
  have hth : ∀ p,(bookStep cfg b (.listen a)).through p=
      if (b.work.tab.tcb p).listener=i then false else b.through p := by
    intro p
    have hif : ((listen cfg b.work a).io.status=.ok ∧ (b.work.tab.tcb p).listener=(listen cfg b.work a).io.index) ↔
        (b.work.tab.tcb p).listener=i := by rw [hs,hi]; simp
    exact if_congr hif rfl rfl
  generalize bookStep cfg b (.listen a)=b' at *
  have hr : ∀ p,b'.work.tab.tcb p=b.work.tab.tcb p := by
    intro p
    rw [htb]
    rfl
  intro l hl hu
  by_cases hli : l=i
  · have hn : held cfg b' l=0 := by
      refine countP_eq_zero.2 fun p _ hc => ?_
      simp only [charged,hr,and_eq_true,beq_iff_eq] at hc
      rw [hth,if_pos (hc.1.2.trans hli)] at hc
      cases hc.2
    rw [hn]
    exact Nat.zero_le _
  have hls : b'.work.tab.listener l=b.work.tab.listener l := by
    rw [htb]
    simp [setListener,hli]
  have hsm : held cfg b' l=held cfg b l := by
    refine countP_congr fun p _ => ?_
    by_cases hp : (b.work.tab.tcb p).listener=l
    · have hch : charged b' l p=charged b l p :=
        charged_congr (by rw [hr]) (by rw [hth,if_neg (by rw [hp]; exact hli)])
      rw [hch]
    · simp [charged,hr,hp]
  rw [hsm]
  rw [hls] at hu ⊢
  exact h l hl hu

theorem held_shift {b b' : Books} {l p : ℕ} (hp : p < cfg.tcpPcbs) (h : ∀ q,q≠p → charged b' l q=charged b l q) :
    held cfg b' l+(charged b l p).toNat=held cfg b l+(charged b' l p).toNat := countP_range_shift h hp

/-- `accept` looked before it charged. -/
theorem accept_bounded {b : Books} {p l : ℕ} (h : Bounded cfg b) : Bounded cfg (bookStep cfg b (.accept p l)) := by
  rcases accept_cases with ⟨ht,-,hs⟩|⟨hp,hu,hr,he⟩
  · refine h.same cfg (congrArg listener ht) (fun q => ?_) ?_
    · exact congrArg (fun t => (t.tcb q).charge) ht
    · funext q
      exact if_neg fun hc => hs hc.2
  have hth : ∀ q,q≠p → (bookStep cfg b (.accept p l)).through q=b.through q := fun q hq => if_neg fun hc => hq hc.1
  have htb : (bookStep cfg b (.accept p l)).work.tab=b.work.tab.setTcb p {b.work.tab.tcb p with listener := l} :=
    congrArg Work.tab he
  generalize bookStep cfg b (.accept p l)=b' at *
  have ho : ∀ k q,q≠p → charged b' k q=charged b k q := fun k q hq =>
    charged_congr (by rw [htb]; simp [hq]) (hth q hq)
  intro k hk huk
  have hl : b'.work.tab.listener=b.work.tab.listener := by
    rw [htb]
    rfl
  rw [hl] at huk ⊢
  have hsh := held_shift cfg hp (ho k)
  have hold := h k hk huk
  cases hc : charged b' k p with
  | false =>
    rw [hc,toNat_false] at hsh
    omega
  | true =>
    -- the row now names this listener, which had room beside it
    have hkl : l=k := by
      simp only [charged,htb,and_eq_true,beq_iff_eq] at hc
      simpa using hc.1.2
    subst hkl
    have hroom' := hr (by have := cfg.tcpListenPcbs_lt; omega)
    have hothers : (range cfg.tcpPcbs).countP (fun q => q != p && charged b l q) ≤ synReceivedOn cfg b.work.tab l p := by
      refine countP_mono_left fun q _ hq => ?_
      simp only [charged,and_eq_true] at hq ⊢
      exact ⟨⟨⟨hq.1,hq.2.1.1.1⟩,hq.2.1.2⟩,hq.2.1.1.2⟩
    have hon := countP_range_shift (f := charged b' l)
      (g := fun q => q != p && charged b l q) (p := p) (fun q hq => by simp [ho l q hq,hq]) hp
    rw [hc,Bool.toNat_true,bne_self_eq_false,Bool.false_and,Bool.toNat_false] at hon
    unfold held
    omega

theorem store_bounded_iff {b : Books} {p : ℕ} {vars : TcpVars} {ctl : TcpPcbCtl} {state : TcpState} (h : Bounded cfg b) :
    Bounded cfg (bookStep cfg b (.store p vars ctl state)) ↔ overfills cfg b (.store p vars ctl state)=false := by
  rcases store_cases p with ⟨ht,hs⟩|⟨hr,hp,hu,hok,he⟩
  · refine iff_of_true (h.same cfg (congrArg listener ht) (fun q => congrArg (fun t => (t.tcb q).charge) ht) rfl) ?_
    by_contra hc
    simp only [overfills,not_eq_false,and_eq_true,decide_eq_true_eq] at hc
    obtain ⟨⟨⟨⟨⟨⟨⟨⟨⟨hr,hp⟩,hu⟩,hok⟩,-⟩,-⟩,-⟩,-⟩,-⟩,-⟩ := hc
    have he := store_eq cfg (w := b.work.image vars ctl state) hr hp hu hok
    rw [he] at hs
    cases hs
  obtain ⟨b',hb',htb,hth'⟩ : ∃ b',bookStep cfg b (.store p vars ctl state)=b' ∧ b'.work.tab=
      b.work.tab.setTcb p {b.work.tab.tcb p with vars := vars,ctl := ctl,state := state} ∧ b'.through=b.through :=
    ⟨_,rfl,congrArg Work.tab he,rfl⟩
  rw [hb']
  have hof : ∀ k q,q≠p → charged b' k q=charged b k q := fun k q hq =>
    charged_congr (by rw [htb]; simp [hq]) (congrFun hth' q)
  have hat : ∀ k,charged b' k p=
      ((b.work.tab.tcb p).inUse && state==.synReceived && (b.work.tab.tcb p).listener==k && b.through p) := by
    intro k
    unfold charged
    rw [htb,hth',setTcb_tcb,if_pos rfl]
  have hsh := fun k => held_shift cfg hp (hof k)
  have hls : b'.work.tab.listener=b.work.tab.listener := by
    rw [htb]
    rfl
  have hr' : b.work.ready := hr
  have hu' : (b.work.tab.tcb p).inUse := hu
  have hok' : transitionOk (b.work.tab.tcb p).state state := hok
  by_cases hn : state=.synReceived ∧ (b.work.tab.tcb p).state≠.synReceived ∧ b.through p
  · obtain ⟨rfl,ho,hth⟩ := hn
    have hcn : ∀ k,held cfg b' k=held cfg b k+((b.work.tab.tcb p).listener==k).toNat := by
      intro k
      have hk := hsh k
      rw [hat k,hu',hth,beq_self_eq_true,Bool.true_and,Bool.true_and,Bool.and_true,
        show charged b k p=false by simp [charged,ho]] at hk
      simpa using hk
    have hov : overfills cfg b (.store p vars ctl .synReceived)=(decide ((b.work.tab.tcb p).listener < cfg.tcpListenPcbs) &&
          (b.work.tab.listener (b.work.tab.tcb p).listener).inUse &&
          decide ((b.work.tab.listener (b.work.tab.tcb p).listener).backlog≤held cfg b (b.work.tab.tcb p).listener)) := by
      have hold' : ((b.work.tab.tcb p).state != .synReceived) := bne_iff_ne.2 ho
      simp only [overfills,hr',hp,hu',hok',hold',hth,decide_true,Bool.true_and,beq_self_eq_true]
    rw [hov]
    constructor
    · intro hb
      by_contra hc
      simp only [not_eq_false,and_eq_true,decide_eq_true_eq] at hc
      obtain ⟨⟨hl,hlu⟩,hfull⟩ := hc
      have hle := hb _ hl (by rw [hls]; exact hlu)
      rw [hls,hcn,beq_self_eq_true,toNat_true] at hle
      omega
    · intro hno k hk huk
      rw [hls] at huk ⊢
      rw [hcn]
      have hle := h k hk huk
      by_cases hlk : (b.work.tab.tcb p).listener=k
      · subst hlk
        simp only [hk,huk,decide_true,Bool.true_and,decide_eq_false_iff_not,not_le] at hno
        rw [beq_self_eq_true,toNat_true]
        omega
      · rw [beq_eq_false_iff_ne.2 hlk,toNat_false]
        exact hle
  · -- the connection counted before, or does not count now
    refine iff_of_true (h.mono cfg (fun k _ _ => by rw [hls]) fun k _ q _ hc => ?_) ?_
    · by_cases hq : q=p
      · subst hq
        rw [hat] at hc
        simp only [and_eq_true,beq_iff_eq] at hc
        obtain ⟨⟨⟨-,hsy⟩,hl⟩,hth⟩ := hc
        have ho : (b.work.tab.tcb q).state=.synReceived := by
          by_contra hne
          exact hn ⟨hsy,hne,hth⟩
        simp [charged,hu',ho,hl,hth]
      · rwa [hof k q hq] at hc
    · by_contra hc
      simp only [overfills,not_eq_false,and_eq_true,decide_eq_true_eq,beq_iff_eq,bne_iff_ne] at hc
      obtain ⟨⟨⟨⟨⟨⟨-,hsy⟩,ho⟩,hth⟩,-⟩,-⟩,-⟩ := hc
      exact hn ⟨hsy,ho,hth⟩

/-- One call keeps the bounds exactly when it fills no listener past its backlog. -/
theorem bookStep_bounded_iff (c : Call) (h : Bounded cfg b) : Bounded cfg (bookStep cfg b c) ↔ overfills cfg b c=false := by
  cases c with
  | clear => exact iff_of_true (nofun) rfl
  | openTcb v =>
    refine iff_of_true ?_ rfl
    rcases openTcb_cases with ⟨ht,-⟩|⟨i,-,-,-,-,he⟩
    · exact h.same cfg (congrArg listener ht) (fun q => congrArg (fun t => (t.tcb q).charge) ht) rfl
    have htb : (bookStep cfg b (.openTcb v)).work.tab=b.work.tab.setTcb i (Tcb.opened cfg v) := congrArg Work.tab he
    refine h.mono cfg (fun l _ _ => by rw [htb]; rfl) fun l _ q _ hc => ?_
    by_cases hq : q=i
    · subst hq
      simp [charged,htb,Tcb.opened] at hc
    have hr : (bookStep cfg b (.openTcb v)).work.tab.tcb q=b.work.tab.tcb q := by
      rw [htb,setTcb_tcb,if_neg hq]
    exact (charged_congr (congrArg Tcb.charge hr) rfl).symm.trans hc
  | close p =>
    refine iff_of_true ?_ rfl
    rcases close_cases p with ht|⟨-,-,-,ht⟩
    · exact h.same cfg (congrArg listener ht) (fun q => congrArg (fun t => (t.tcb q).charge) ht) rfl
    have htb : (bookStep cfg b (.close p)).work.tab=(sendQueuesFree cfg b.work.tab p).setTcb p .zero := ht
    have hf := sendQueuesFree_sameHeld cfg b.work.tab p
    refine h.mono cfg (fun l _ _ => ?_) fun l _ q _ hc => ?_
    · rw [htb]
      exact congrFun hf.listener l
    · by_cases hq : q=p
      · subst hq
        simp [charged,htb,Tcb.zero] at hc
      · have hr : ((bookStep cfg b (.close p)).work.tab.tcb q).charge=(b.work.tab.tcb q).charge := by
          rw [htb,setTcb_tcb,if_neg hq]
          exact hf.keeps Tcb.charge (fun _ => rfl) q
        rwa [charged_congr hr rfl] at hc
  | store p vars ctl state => exact store_bounded_iff cfg h
  | accept p l => exact iff_of_true (accept_bounded cfg h) rfl
  | listen a => exact iff_of_true (listen_bounded cfg a h) rfl
  | unlisten i =>
    refine iff_of_true ?_ rfl
    have hr : ∀ q,(bookStep cfg b (.unlisten i)).work.tab.tcb q=b.work.tab.tcb q := fun q =>
      congrArg (fun t => t.tcb q) (unlisten_tab)
    refine h.mono cfg (fun l _ hu => ?_) fun l _ q _ hc =>
      (charged_congr (congrArg Tcb.charge (hr q)) rfl).symm.trans hc
    rcases unlisten_cases with ht|ht
    · exact congrArg (fun t => t.listener l) ht
    have htb : (bookStep cfg b (.unlisten i)).work.tab=b.work.tab.setListener i .zero := ht
    rw [htb] at hu ⊢
    by_cases hl : l=i
    · simp [setListener,hl,Listener.zero] at hu
    · simp [setListener,hl]
  | opt a =>
    exact iff_of_true (h.same cfg (step_sameStates cfg rfl).listener (step_charge cfg (.inr (.inl ⟨a,rfl⟩))) rfl) rfl
  | bind a =>
    exact iff_of_true (h.same cfg (step_sameStates cfg rfl).listener (step_charge cfg (.inr (.inr (.inl ⟨a,rfl⟩)))) rfl) rfl
  | connect a =>
    exact iff_of_true (h.same cfg (step_sameStates cfg rfl).listener (step_charge cfg (.inr (.inr (.inr ⟨a,rfl⟩)))) rfl) rfl
  | _ => exact iff_of_true (h.same cfg (step_sameRows cfg rfl).listener (step_charge cfg (.inl rfl)) rfl) rfl

/-- Over a run no listener holds more in SYN-RECEIVED than its backlog exactly when none did and no store fills one
past it. -/
theorem run_backlog_iff (b : Books) (cs : List Call) : (∀ n,Bounded cfg (run (bookStep cfg) b (cs.take n))) ↔
      Bounded cfg b ∧ Along (bookStep cfg) (fun x c => overfills cfg x c=false) b cs :=
  every_iff_along (bookStep_bounded_iff cfg)

end Books

/-- A listener for one connection, and two charged to it before either is stored. -/
def overfilling : List Call :=
  [.listen ⟨some .zero,80,0,0,1,4⟩,.openTcb 4,.openTcb 4,.accept 0 0,.accept 1 0,.store 0 .zero .zero .synReceived,
    .store 1 .zero .zero .synReceived]

/-- Both then wait in SYN-RECEIVED on it. -/
theorem overfilling_exceeds :
    let b := run (bookStep .shipped) ⟨clear ⟨false,.zero,⟨.zero,.zero,.closed,.err,0,0,.zero,.zero,.zero⟩⟩,fun _ => false⟩
      overfilling
    (b.work.tab.listener 0).inUse=true ∧ (b.work.tab.listener 0).backlog=1 ∧ held .shipped b 0=2 := by
  decide +kernel

end Backlogs

section Refusals

open StepRun

variable {cfg : Config} {w : Work}

/-- A call reported OK, or left the tables. -/
def Settled (w u : Work) : Prop := u.io.status=.ok ∨ u.tab=w.tab

theorem Settled.done (t : Tables) : Settled w (w.done t) := .inl rfl

theorem Settled.took (t : Tables) (i : ℕ) : Settled w (w.took t i) := .inl rfl

theorem Settled.status (s : Status) : Settled w (w.status s) := .inr rfl

theorem Settled.noIndex (s : Status) : Settled w (w.noIndex s) := .inr rfl

theorem openTcb_settled (v : ℕ) : Settled w (openTcb cfg w v) := by
  unfold openTcb
  split_ifs
  · exact .noIndex .err
  · exact .noIndex .err
  split
  · exact .noIndex .busy
  · exact .took _ _

theorem opt_settled (a : OptArgs) : Settled w (opt cfg w a) := by
  unfold opt
  dsimp only
  split_ifs
  · exact .status .err
  · exact .status .err
  · exact .done _

theorem close_settled (i : ℕ) : Settled w (close cfg w i) := by
  unfold close
  split_ifs
  · exact .status .err
  · exact .status .err
  · exact .status .busy
  · exact .done _

theorem bind_settled (a : AddrArgs) : Settled w (bind cfg w a) := by
  unfold bind
  cases a.ip with
  | none => exact .inr rfl
  | some ip =>
    dsimp only
    split_ifs
    all_goals first | exact .inr rfl | exact .inl rfl

theorem connect_settled (a : AddrArgs) : Settled w (connect cfg w a) := by
  unfold connect
  cases a.ip with
  | none => exact .status .err
  | some ip =>
    dsimp only
    split_ifs
    · exact .status .err
    · exact .status .err
    · exact .status .err
    · exact .status .err
    · exact .status .busy
    · exact .done _

theorem store_settled (i : ℕ) : Settled w (store cfg w i) := by
  unfold store
  dsimp only
  split_ifs
  · exact .status .err
  · exact .status .err
  · exact .done _

theorem accept_settled {i l : ℕ} : Settled w (accept cfg w i l) := by
  unfold accept
  dsimp only
  split_ifs
  · exact .status .err
  · exact .status .err
  · exact .status .err
  · exact .status .busy
  · exact .done _

theorem listen_settled (a : ListenArgs) : Settled w (listen cfg w a) := by
  unfold listen
  cases a.ip with
  | none => exact .noIndex .err
  | some ip =>
    dsimp only
    split_ifs
    · exact .noIndex .err
    · exact .noIndex .err
    · exact .noIndex .busy
    split
    · exact .noIndex .busy
    · exact .took _ _

theorem unlisten_settled (i : ℕ) : Settled w (unlisten cfg w i) := by
  unfold unlisten
  split_ifs
  · exact .status .err
  · exact .status .err
  · exact .done _

theorem segAlloc_settled (a : SegArgs) : Settled w (segAlloc cfg w a) := by
  unfold segAlloc
  split_ifs
  · exact .noIndex .err
  · exact .noIndex .err
  · exact .noIndex .err
  split
  · exact .noIndex .busy
  · exact .took _ _

/-- Sending one: the unacknowledged queue has an end to hang it on, so the arm behind the write is not reached. -/
theorem segSent_settled {un ua : ℕ → List ℕ} (h : SegsOk cfg w.tab un ua) (i : ℕ) : Settled w (segSent cfg w i) := by
  unfold segSent
  dsimp only
  split_ifs with hr hu hhead
  · exact .status .err
  · exact .status .err
  · exact .status .err
  have hi : w.ready=true ∧ i < cfg.tcpSegs := by simpa using hr
  have hin : (w.tab.seg i).inUse=true ∧ (w.tab.seg i).pcb < cfg.tcpPcbs := by simpa using hu
  obtain ⟨rest,u,-,happend,-⟩ := h.sent hi.2 hin.1 rfl (not_not.1 hhead)
  rw [happend]
  exact .done u

theorem segFree_settled (i : ℕ) : Settled w (segFree cfg w i) := by
  unfold segFree
  dsimp only
  split_ifs
  · exact .status .err
  · exact .status .err
  split
  · exact .status .err
  · exact .done _

theorem oosAlloc_settled (a : OosArgs) : Settled w (oosAlloc cfg w a) := by
  unfold oosAlloc
  dsimp only
  split_ifs
  · exact .noIndex .err
  · exact .noIndex .err
  · exact .noIndex .busy
  split
  · exact .noIndex .busy
  · exact .took _ _

theorem oosFree_settled (i : ℕ) : Settled w (oosFree cfg w i) := by
  unfold oosFree
  dsimp only
  split_ifs
  · exact .status .err
  · exact .status .err
  split
  · exact .status .err
  · exact .done _

theorem step_settled {un ua : ℕ → List ℕ} (h : SegsOk cfg w.tab un ua) (c : Call) : Settled w (step cfg w c) := by
  cases c with
  | clear => exact .inl rfl
  | openTcb v => exact openTcb_settled v
  | opt a => exact opt_settled a
  | close i => exact close_settled i
  | bind a => exact bind_settled a
  | connect a => exact connect_settled a
  | load i => exact .inr (load_tab i)
  | store i vars ctl state =>
    have hs : Settled (w.image vars ctl state) (store cfg (w.image vars ctl state) i) := store_settled i
    exact hs
  | accept i l => exact accept_settled
  | listen a => exact listen_settled a
  | unlisten i => exact unlisten_settled i
  | find a => exact .inr (find_tab a)
  | findListener a => exact .inr (findListener_tab a)
  | segAlloc a => exact segAlloc_settled a
  | segLoad i => exact .inr (segLoad_tab)
  | segSent i => exact segSent_settled h i
  | segFree i => exact segFree_settled i
  | oosAlloc a => exact oosAlloc_settled a
  | oosLoad i => exact .inr (oosLoad_tab)
  | oosFree i => exact oosFree_settled i

/-- Whatever was called after `clear`, a call that does not report OK leaves every table as it was. -/
theorem run_refused_tab (cfg : Config) (w : Work) (calls : List Call) (c : Call)
    (h : (step cfg (run (step cfg) (clear w) calls) c).io.status≠.ok) :
    (step cfg (run (step cfg) (clear w) calls) c).tab=(run (step cfg) (clear w) calls).tab := by
  have hrun : ∃ un ua oo,Represents cfg (run (traceStep cfg) ⟨clear w,0,fun _ => 0⟩ calls) un ua oo :=
    run_always (traceStep_represents cfg) ⟨_,_,_,represents_clear w (fun _ => 0) 0⟩
  obtain ⟨un,ua,oo,hq⟩ := hrun
  have hsegs := hq.segs
  have hwork : (run (traceStep cfg) ⟨clear w,0,fun _ => 0⟩ calls).work=run (step cfg) (clear w) calls :=
    run_map Trace.work (fun _ _ => rfl) _ calls
  rw [hwork] at hsegs
  exact (step_settled hsegs c).resolve_left h

/-- Two segments queued on one connection. -/
def twoQueued : Work :=
  run (step .shipped) (clear ⟨false,.zero,⟨.zero,.zero,.closed,.err,0,0,.zero,.zero,.zero⟩⟩)
    [.openTcb 4,.segAlloc ⟨none,0,0,0,0,0⟩,.segAlloc ⟨none,0,0,0,0,0⟩]

/-- The second of them is not sent before the first. -/
theorem run_refused_tab_unsent :
    (step .shipped twoQueued (.segSent 1)).io.status=.err ∧ (step .shipped twoQueued (.segSent 1)).tab=twoQueued.tab := by
  have h : (step .shipped twoQueued (.segSent 1)).io.status=.err := by decide +kernel
  refine ⟨h,run_refused_tab .shipped _ _ (.segSent 1) ?_⟩
  intro hok
  rw [show (step .shipped twoQueued (.segSent 1)).io.status=.ok from hok] at h
  cases h

end Refusals

end IdemIp.TcpPcb
