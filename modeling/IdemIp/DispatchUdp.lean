import IdemIp.DispatchReass

/-!
# The UDP bindings, `udp_pcb.c`, and the datagrams they get, `d_udp`

`find` takes the most specific binding that admits a datagram, the lowest index of a
tie. `bind` and `connect` refuse an identity another open binding carries;
`disconnect` does not look. UDP and UDP-Lite bindings rank together.
-/

namespace IdemIp.UdpPcb

open IndexChain StepRun

/-- One binding, `UdpPcbFields`. -/
structure Entry where
  (localIp remoteIp : Octets)
  (localPort remotePort : BitVec 16)
  /-- Checksum Coverage sent and the least taken, RFC 3828. -/
  (cksumLenTx cksumLenRx : BitVec 16)
  (localZone remoteZone : BitVec 8)
  /-- The interface the binding is pinned to, zero for any. -/
  (netif tos ttl mcastTtl mcastNetif flags ipVersion : BitVec 8)
  (lite connected inUse : Bool)

def Entry.zero : Entry := ⟨.zero,.zero,0,0,0,0,0,0,0,0,0,0,0,0,0,false,false,false⟩

/-- Operands of `open`, `UdpPcbOpenArgs`. -/
structure OpenArgs where
  ipVersion : BitVec 8
  lite : Bool

/-- Operands of `bind` and `connect`, `UdpPcbAddrArgs`. -/
structure AddrArgs where
  ip : Option Octets
  rand : BitVec 32
  index : ℕ
  port : BitVec 16
  (zone netif : BitVec 8)

/-- The address, of operands that have one. -/
def AddrArgs.addr (a : AddrArgs) : Octets := a.ip.getD .zero

/-- Operands of `set_opts`, `UdpPcbOptArgs`. -/
structure OptArgs where
  index : ℕ
  (cksumLenTx cksumLenRx : BitVec 16)
  (tos ttl mcastTtl mcastNetif flags : BitVec 8)

/-- Operands of `find`, `UdpPcbFindArgs`. -/
structure FindArgs where
  (localIp remoteIp : Option Octets)
  (localPort remotePort cksumLen : BitVec 16)
  (ipVersion localZone remoteZone netif : BitVec 8)

/-- Result members of the operand block, `UdpPcbIo`. -/
structure Io where
  status : Status
  index : ℕ
  port : BitVec 16
  info : Entry

/-- The caller's borrow, `UdpPcbCtx` and the table behind it. -/
structure Work where
  /-- `clear` ran. -/
  ready : Bool
  entry : ℕ → Entry
  io : Io

def Work.setEntry (w : Work) (i : ℕ) (e : Entry) : Work := {w with entry := Function.update w.entry i e}

def Work.report (w : Work) (status : Status) : Work := {w with io := {w.io with status}}

/-- Octets of an address of a version, `udp_pcb_addr_len`. -/
def addrLen (ipVersion : BitVec 8) : ℕ := if ipVersion=6 then 16 else 4

/-- The same address in the same zone, `udp_pcb_addr_same`. -/
def addrSame (a : Octets) (az : BitVec 8) (b : Octets) (bz : BitVec 8) (n : ℕ) : Bool := a.bytesEq b n && az==bz

/-- Two pins admit a common datagram, `udp_pcb_netif_overlap`. -/
def netifOverlap (a b : BitVec 8) : Bool := a==0 || b==0 || a==b

section Calls

variable (cfg : Config) (f : Entry) (a : FindArgs) (w : Work)

/-- The first entry no binding holds, `udp_pcb_free_entry`. -/
def freeEntry : Option ℕ := firstIndex cfg.udpPcbs fun i => !(w.entry i).inUse

/-- Another open entry carries a port, `udp_pcb_port_held`. -/
def portHeld (port : BitVec 16) (skip : ℕ) : Bool :=
  (firstIndex cfg.udpPcbs fun i => i != skip && (w.entry i).inUse && (w.entry i).localPort==port).isSome

/-- Candidate of the walk over RFC 6335's dynamic range. -/
def candidate (rand : BitVec 32) (n : ℕ) : BitVec 16 := 0xC000 ||| ((rand.setWidth 16+BitVec.ofNat 16 n) &&& 0x3FFF)

/-- The first candidate no other open entry holds, zero when there is none, `udp_pcb_free_port`. -/
def freePort (skip : ℕ) (rand : BitVec 32) : BitVec 16 :=
  match firstIndex (cfg.udpPcbs+1) fun n => !portHeld cfg w (candidate rand n) skip with
  | some n => candidate rand n
  | none => 0

/-- Another open entry carries the identity a bind would give, `udp_pcb_bind_taken`. -/
def bindTaken (skip : ℕ) (e : Entry) (a : AddrArgs) (port : BitVec 16) : Bool :=
  let n := addrLen e.ipVersion
  (firstIndex cfg.udpPcbs fun i =>
    let o := w.entry i
    i != skip && o.inUse && o.ipVersion==e.ipVersion && o.localPort==port && o.connected==e.connected &&
      addrSame o.localIp o.localZone a.addr a.zone n && netifOverlap o.netif a.netif &&
      (!e.connected || (addrSame o.remoteIp o.remoteZone e.remoteIp e.remoteZone n && o.remotePort==e.remotePort))).isSome

/-- The interface a connect leaves the entry pinned to. -/
def connectNetif (e : Entry) (a : AddrArgs) : BitVec 8 := if a.netif≠0 then a.netif else e.netif

/-- Another open entry carries the identity a connect would give, `udp_pcb_connect_taken`. -/
def connectTaken (skip : ℕ) (e : Entry) (a : AddrArgs) : Bool :=
  let n := addrLen e.ipVersion
  if e.localPort=0 then false
  else
    (firstIndex cfg.udpPcbs fun i =>
      let o := w.entry i
      i != skip && o.inUse && o.ipVersion==e.ipVersion && o.localPort==e.localPort && o.connected && o.remotePort==a.port &&
        addrSame o.localIp o.localZone e.localIp e.localZone n && addrSame o.remoteIp o.remoteZone a.addr a.zone n &&
        netifOverlap o.netif (connectNetif e a)).isSome

/-- The local endpoint admits the destination, `udp_pcb_local_admits`. -/
def localAdmits (n : ℕ) : Bool :=
  f.localIp.bytesZero n || (f.localIp.bytesEq (a.localIp.getD .zero) n && f.localZone==a.localZone)

/-- The remote endpoint admits the source, `udp_pcb_remote_admits`. -/
def remoteAdmits (n : ℕ) : Bool :=
  f.remotePort==a.remotePort && f.remoteIp.bytesEq (a.remoteIp.getD .zero) n && f.remoteZone==a.remoteZone

/-- The coverage is one the binding takes, `udp_pcb_cov_admits`. -/
def covAdmits (cov : BitVec 16) : Bool :=
  if cov=0 then true
  else if !f.lite then false
  else if f.cksumLenRx=0 then false
  else decide (f.cksumLenRx ≤ cov)

/-- A binding takes a datagram: the tests of `udp_pcb_match`. -/
def admits : Bool :=
  let n := addrLen a.ipVersion
  f.inUse && f.ipVersion==a.ipVersion && f.localPort != 0 && f.localPort==a.localPort &&
    (f.netif==0 || f.netif==a.netif) && localAdmits f a n && covAdmits f a.cksumLen && (!f.connected || remoteAdmits f a n)

/-- How specific a binding is. -/
def rank : ℕ :=
  (if f.connected then 2 else 0)+if f.localIp.bytesZero (addrLen a.ipVersion) then 0 else 1

/-- The most specific of the entries below a bound, the loop of `udp_pcb_match`. -/
def matched (w : Work) (a : FindArgs) : ℕ → Option ℕ
  | 0 => none
  | n+1 =>
    match matched w a n with
    | none => if admits (w.entry n) a then some n else none
    | some best => if admits (w.entry n) a ∧ rank (w.entry best) a < rank (w.entry n) a then some n else some best

/-- Zero the table and mark it, `idemip_udp_pcb_clear`. -/
def clear : Work := ⟨true,fun _ => .zero,{w.io with info := .zero,index := noneIndex,port := 0,status := .ok}⟩

/-- Take a free entry, `idemip_udp_pcb_open`. -/
def openPcb (a : OpenArgs) : Work :=
  let w := {w with io := {w.io with status := .err,index := noneIndex}}
  if w.ready=false ∨ (a.ipVersion≠4 ∧ a.ipVersion≠6) then w
  else
    match freeEntry cfg w with
    | none => w.report .busy
    | some i =>
      let w := w.setEntry i {Entry.zero with ipVersion := a.ipVersion,lite := a.lite,ttl := cfg.ipDefaultTtl,mcastTtl := 1,inUse := true}
      {w with io := {w.io with index := i,status := .ok}}

/-- An index of an open entry of a cleared table. -/
def Work.holds (i : ℕ) : Bool := w.ready && decide (i < cfg.udpPcbs) && (w.entry i).inUse

/-- Zero an entry, `idemip_udp_pcb_close`. -/
def close (i : ℕ) : Work :=
  let w := w.report .err
  if w.holds cfg i then (w.setEntry i .zero).report .ok else w

/-- Set the local endpoint, `idemip_udp_pcb_bind`. -/
def bind (a : AddrArgs) : Work :=
  let w := {w with io := {w.io with status := .err,port := 0}}
  let e := w.entry a.index
  let put (w : Work) (port : BitVec 16) : Work :=
    let w := w.setEntry a.index
      {e with localIp := a.addr.padded (addrLen e.ipVersion),localZone := a.zone,netif := a.netif,localPort := port}
    {w with io := {w.io with port,status := .ok}}
  if w.holds cfg a.index=false ∨ a.ip=none then w
  else if a.port=0 then
    let port := freePort cfg w a.index a.rand
    if port=0 then w.report .busy else put w port
  else if bindTaken cfg w a.index e a a.port then w
  else put w a.port

/-- Set the remote endpoint, `idemip_udp_pcb_connect`. -/
def connect (a : AddrArgs) : Work :=
  let w := w.report .err
  let e := w.entry a.index
  let n := addrLen e.ipVersion
  if w.holds cfg a.index=false ∨ a.ip=none ∨ a.port=0 then w
  else if a.addr.bytesZero n || connectTaken cfg w a.index e a then w
  else
    let e := {e with remoteIp := a.addr.padded n,remoteZone := a.zone,remotePort := a.port}
    (w.setEntry a.index {e with netif := connectNetif e a,connected := true}).report .ok

/-- Clear the remote endpoint, `idemip_udp_pcb_disconnect`. -/
def disconnect (i : ℕ) : Work :=
  let w := w.report .err
  if w.holds cfg i then
    (w.setEntry i {w.entry i with remoteIp := .zero,remotePort := 0,remoteZone := 0,connected := false}).report .ok
  else w

/-- Set the options of a binding, `idemip_udp_pcb_set_opts`. -/
def setOpts (a : OptArgs) : Work :=
  let w := w.report .err
  let e := w.entry a.index
  if w.holds cfg a.index=false ∨ a.ttl=0 ∨ a.mcastTtl=0 then w
  else if (a.cksumLenTx≠0 ∧ a.cksumLenTx<8) ∨ (a.cksumLenRx≠0 ∧ a.cksumLenRx<8) then w
  else if e.lite=false ∧ (a.cksumLenTx≠0 ∨ a.cksumLenRx≠0) then w
  else
    let e := {e with cksumLenTx := a.cksumLenTx,cksumLenRx := a.cksumLenRx,tos := a.tos,ttl := a.ttl}
    (w.setEntry a.index {e with mcastTtl := a.mcastTtl,mcastNetif := a.mcastNetif,flags := a.flags}).report .ok

/-- Report one binding, `idemip_udp_pcb_load`. -/
def load (i : ℕ) : Work :=
  let w := {w with io := {w.io with status := .err,info := .zero}}
  if w.holds cfg i then {w with io := {w.io with info := w.entry i,status := .ok}} else w

/-- The binding a datagram belongs to, `idemip_udp_pcb_find`. -/
def find (a : FindArgs) : Work :=
  let w := {w with io := {w.io with status := .err,index := noneIndex}}
  if w.ready=false ∨ a.localIp=none ∨ a.remoteIp=none ∨ (a.ipVersion≠4 ∧ a.ipVersion≠6) ∨
      (a.cksumLen≠0 ∧ a.cksumLen<8) then w
  else
    match matched w a cfg.udpPcbs with
    | none => w
    | some i => {w with io := {w.io with index := i,status := .ok}}

/-- A call that changes the table, with its operands. -/
inductive Call
  | openPcb (a : OpenArgs)
  | close (i : ℕ)
  | bind (a : AddrArgs)
  | connect (a : AddrArgs)
  | disconnect (i : ℕ)
  | setOpts (a : OptArgs)

def step : Call → Work
  | .openPcb a => openPcb cfg w a
  | .close i => close cfg w i
  | .bind a => bind cfg w a
  | .connect a => connect cfg w a
  | .disconnect i => disconnect cfg w i
  | .setOpts a => setOpts cfg w a

end Calls

/-- Two open bindings of one version and local endpoint on a common interface, both unconnected or with one remote
endpoint. -/
structure Clash (e o : Entry) : Prop where
  inUse : e.inUse ∧ o.inUse
  ipVersion : e.ipVersion=o.ipVersion
  port : e.localPort=o.localPort
  bound : e.localPort≠0
  localIp : addrSame e.localIp e.localZone o.localIp o.localZone (addrLen e.ipVersion)
  netif : netifOverlap e.netif o.netif
  connected : e.connected=o.connected
  remote : e.connected → addrSame e.remoteIp e.remoteZone o.remoteIp o.remoteZone (addrLen e.ipVersion) ∧
    e.remotePort=o.remotePort

/-- No two entries of a table clash. -/
def Distinct (cfg : Config) (t : ℕ → Entry) : Prop := ∀ i < cfg.udpPcbs,∀ j < cfg.udpPcbs,i≠j → ¬Clash (t i) (t j)

variable {a b : Octets} {az bz : BitVec 8} {n : ℕ}

theorem addrSame_iff : addrSame a az b bz n ↔ (∀ k<n,a k=b k) ∧ az=bz := by
  rw [addrSame,Bool.and_eq_true,Octets.bytesEq_iff,beq_iff_eq]

theorem addrSame_comm : addrSame a az b bz n ↔ addrSame b bz a az n := by
  rw [addrSame_iff,addrSame_iff,eq_comm (a := az)]
  exact and_congr_left fun _ => forall₂_congr fun _ _ => eq_comm

theorem addrSame_padded : addrSame (a.padded n) az b bz n ↔ addrSame b bz a az n := by
  rw [addrSame_comm,addrSame,addrSame,Octets.bytesEq_padded]

theorem netifOverlap_comm {a b : BitVec 8} : netifOverlap a b=netifOverlap b a := by
  rw [Bool.eq_iff_iff]
  simp only [netifOverlap,Bool.or_eq_true,beq_iff_eq,eq_comm (a := a) (b := b)]
  tauto

variable {o : Entry}

theorem Clash.symm {e : Entry} (h : Clash e o) : Clash o e := by
  refine ⟨h.inUse.symm,h.ipVersion.symm,h.port.symm,h.port ▸ h.bound,?_,?_,h.connected.symm,fun hc => ?_⟩
  · rw [←h.ipVersion]
    exact addrSame_comm.1 h.localIp
  · rw [netifOverlap_comm]
    exact h.netif
  · rw [←h.ipVersion]
    obtain ⟨hip,hp⟩ := h.remote (h.connected.trans hc)
    exact ⟨addrSame_comm.1 hip,hp.symm⟩

section Steps

variable {cfg : Config} {w : Work} {t : ℕ → Entry} {i : ℕ} {e : Entry}

/-- A table with one entry replaced stays free of clashes exactly if that entry clashes with no other. -/
theorem Distinct.update_iff (h : Distinct cfg t) (hi : i < cfg.udpPcbs) :
    Distinct cfg (Function.update t i e) ↔ ∀ j < cfg.udpPcbs,j≠i → ¬Clash e (t j) := by
  have hs : Function.update t i e i=e := Function.update_self _ _ _
  have ho : ∀ j,j≠i → Function.update t i e j=t j := fun j hj => Function.update_of_ne hj _ _
  constructor
  · intro hd j hj hji hc
    refine hd i hi j hj hji.symm ?_
    rw [hs,ho j hji]
    exact hc
  · intro hn j hj k hk hjk hc
    by_cases hji : j=i
    · subst hji
      rw [hs,ho k hjk.symm] at hc
      exact hn k hk hjk.symm hc
    rw [ho j hji] at hc
    by_cases hki : k=i
    · subst hki
      rw [hs] at hc
      exact hn j hj hji hc.symm
    · rw [ho k hki] at hc
      exact h j hj k hk hjk hc

theorem not_clash_unbound (h : e.inUse=false ∨ e.localPort=0) : ¬Clash e o := by
  intro hc
  rcases h with h|h
  · cases h.symm.trans hc.inUse.1
  · exact hc.bound h

theorem holds_iff : w.holds cfg i ↔ w.ready ∧ i < cfg.udpPcbs ∧ (w.entry i).inUse := by
  simp only [Work.holds,Bool.and_eq_true,decide_eq_true_eq,and_assoc]

@[simp] theorem report_holds (w : Work) (status : Status) (i : ℕ) : (w.report status).holds cfg i=w.holds cfg i := rfl

variable (h : Distinct cfg w.entry)
include h

theorem Distinct.openPcb (a : OpenArgs) : Distinct cfg (openPcb cfg w a).entry := by
  unfold UdpPcb.openPcb
  dsimp only
  split
  · exact h
  split
  · exact h
  · rename_i i hf
    exact (h.update_iff (firstIndex_some.1 hf).2.1).2 fun j _ _ => not_clash_unbound (.inr rfl)

theorem Distinct.close (i : ℕ) : Distinct cfg (close cfg w i).entry := by
  unfold UdpPcb.close
  dsimp only
  split
  · rename_i hh
    exact (h.update_iff (holds_iff.1 hh).2.1).2 fun j _ _ => not_clash_unbound (.inl rfl)
  · exact h

theorem Distinct.setOpts (a : OptArgs) : Distinct cfg (setOpts cfg w a).entry := by
  unfold UdpPcb.setOpts
  dsimp only
  split
  · exact h
  rename_i hh
  have hi := (holds_iff.1 (Bool.eq_true_of_not_eq_false fun hf => hh (.inl hf))).2.1
  split
  · exact h
  split
  · exact h
  · refine (h.update_iff hi).2 fun j hj hji hc => h a.index hi j hj hji.symm ?_
    exact ⟨hc.inUse,hc.ipVersion,hc.port,hc.bound,hc.localIp,hc.netif,hc.connected,hc.remote⟩

omit h in
theorem firstIndex_isSome_false {p : ℕ → Bool} (h : ¬(firstIndex n p).isSome) : ∀ j<n,p j=false := by
  refine firstIndex_none.1 ?_
  rwa [Option.isSome_iff_ne_none,not_not] at h

/-- The endpoint a bind gives. -/
def Entry.bound (e : Entry) (a : AddrArgs) (port : BitVec 16) : Entry :=
  {e with localIp := a.addr.padded (addrLen e.ipVersion),localZone := a.zone,netif := a.netif,localPort := port}

omit h in
theorem not_clash_bindTaken {a : AddrArgs} {port : BitVec 16} (hf : ¬bindTaken cfg w i e a port) :
    ∀ j < cfg.udpPcbs,j≠i → ¬Clash (e.bound a port) (w.entry j) := by
  intro j hj hji hc
  have hno := firstIndex_isSome_false hf j hj
  have hin : (w.entry j).inUse := hc.inUse.2
  have hv : e.ipVersion=(w.entry j).ipVersion := hc.ipVersion
  have hp : port=(w.entry j).localPort := hc.port
  have hip : addrSame (w.entry j).localIp (w.entry j).localZone a.addr a.zone (addrLen e.ipVersion) := addrSame_padded.1 hc.localIp
  have hn : netifOverlap (w.entry j).netif a.netif := netifOverlap_comm.trans hc.netif
  have hcn : e.connected=(w.entry j).connected := hc.connected
  have hr : e.connected → addrSame (w.entry j).remoteIp (w.entry j).remoteZone e.remoteIp e.remoteZone (addrLen e.ipVersion) ∧
      e.remotePort=(w.entry j).remotePort := fun h => ⟨addrSame_comm.1 (hc.remote h).1,(hc.remote h).2⟩
  cases hcs : e.connected with
  | false => simp [hji,hin,←hv,hp,hip,hn,←hcn,hcs] at hno
  | true =>
    obtain ⟨hri,hrp⟩ := hr hcs
    simp [hji,hin,←hv,hp,hip,hn,←hcn,hcs,hri,hrp] at hno

omit h in
theorem not_clash_freePort {a : AddrArgs} {rand : BitVec 32} (hfr : freePort cfg w i rand≠0) :
    ∀ j < cfg.udpPcbs,j≠i → ¬Clash (e.bound a (freePort cfg w i rand)) (w.entry j) := by
  intro j hj hji hc
  have hpr : freePort cfg w i rand=(w.entry j).localPort := hc.port
  unfold freePort at hpr hfr
  cases hf : firstIndex (cfg.udpPcbs+1) fun n => !portHeld cfg w (candidate rand n) i with
  | none =>
    rw [hf] at hfr
    exact hfr rfl
  | some n =>
    rw [hf] at hpr
    obtain ⟨hp,-,-⟩ := firstIndex_some.1 hf
    have hno := firstIndex_isSome_false (by simpa [portHeld] using hp) j hj
    simp [hji,hc.inUse.2,←hpr] at hno

theorem Distinct.bind (a : AddrArgs) : Distinct cfg (bind cfg w a).entry := by
  unfold UdpPcb.bind
  dsimp only
  split
  · exact h
  rename_i hh
  have hi := (holds_iff.1 (Bool.eq_true_of_not_eq_false fun hf => hh (.inl hf))).2.1
  split
  · split
    · exact h
    · rename_i hf
      exact (h.update_iff hi).2 (not_clash_freePort (w := {w with io := {w.io with status := .err,port := 0}}) hf)
  split
  · exact h
  · rename_i hf
    exact (h.update_iff hi).2 (not_clash_bindTaken (w := {w with io := {w.io with status := .err,port := 0}}) hf)

omit h in
/-- The identity a connect gives, where no other entry carries it, clashes with none. -/
theorem not_clash_connectTaken {a : AddrArgs} (hf : ¬connectTaken cfg w i e a)
    (ho : o={e with remoteIp := a.addr.padded (addrLen e.ipVersion),remoteZone := a.zone,remotePort := a.port})
    (j : ℕ) (hj : j < cfg.udpPcbs) (hji : j≠i) : ¬Clash {o with netif := connectNetif o a,connected := true} (w.entry j) := by
  subst ho
  intro hc
  have hb : e.localPort≠0 := hc.bound
  unfold connectTaken at hf
  rw [if_neg hb] at hf
  have hno := firstIndex_isSome_false hf j hj
  have hin : (w.entry j).inUse := hc.inUse.2
  have hv : e.ipVersion=(w.entry j).ipVersion := hc.ipVersion
  have hp : e.localPort=(w.entry j).localPort := hc.port
  have hip : addrSame (w.entry j).localIp (w.entry j).localZone e.localIp e.localZone (addrLen e.ipVersion) :=
    addrSame_comm.1 hc.localIp
  have hn : netifOverlap (w.entry j).netif (connectNetif e a) := netifOverlap_comm.trans hc.netif
  have hcn : true=(w.entry j).connected := hc.connected
  have hrp : addrSame (w.entry j).remoteIp (w.entry j).remoteZone a.addr a.zone (addrLen e.ipVersion) :=
    addrSame_padded.1 (hc.remote rfl).1
  have hr : a.port=(w.entry j).remotePort := (hc.remote rfl).2
  simp [hji,hin,←hv,←hp,hip,hn,←hcn,hrp,←hr] at hno

theorem Distinct.connect (a : AddrArgs) : Distinct cfg (connect cfg w a).entry := by
  unfold UdpPcb.connect
  dsimp only
  split
  · exact h
  rename_i hh
  have hi := (holds_iff.1 (Bool.eq_true_of_not_eq_false fun hf => hh (.inl hf))).2.1
  split
  · exact h
  rename_i hfr
  rw [Bool.or_eq_true,not_or] at hfr
  exact (h.update_iff hi).2 (not_clash_connectTaken (w := w.report .err) hfr.2 rfl)

/-- An open unconnected binding of a local endpoint that an entry shares on a common interface. -/
structure Shares (e o : Entry) : Prop where
  inUse : o.inUse
  unconnected : o.connected=false
  ipVersion : e.ipVersion=o.ipVersion
  port : e.localPort=o.localPort
  bound : e.localPort≠0
  localIp : addrSame e.localIp e.localZone o.localIp o.localZone (addrLen e.ipVersion)
  netif : netifOverlap e.netif o.netif=true

/-- An open entry is disconnected only while no other unconnected binding shares its local endpoint. -/
def Alone (cfg : Config) (w : Work) : Call → Prop
  | .disconnect i => w.holds cfg i → ∀ j < cfg.udpPcbs,j≠i → ¬Shares (w.entry i) (w.entry j)
  | _ => True

theorem Distinct.disconnect_iff (i : ℕ) : Distinct cfg (disconnect cfg w i).entry ↔ Alone cfg w (.disconnect i) := by
  unfold UdpPcb.disconnect
  dsimp only
  rw [report_holds]
  show _ ↔ (w.holds cfg i → _)
  by_cases hhl : w.holds cfg i
  · rw [if_pos hhl,forall_prop_of_true hhl]
    obtain ⟨-,hi,hu⟩ := holds_iff.1 hhl
    refine (h.update_iff hi).trans (forall₃_congr fun j hj hji => not_congr ?_)
    constructor
    · intro hc
      exact ⟨hc.inUse.2,hc.connected.symm,hc.ipVersion,hc.port,hc.bound,hc.localIp,hc.netif⟩
    · intro hs
      exact ⟨⟨hu,hs.inUse⟩,hs.ipVersion,hs.port,hs.bound,hs.localIp,hs.netif,hs.unconnected.symm,nofun⟩
  · rw [if_neg hhl]
    exact iff_of_true h fun hh => absurd hh hhl

/-- A call keeps the bindings apart exactly if it disconnects none that shares its local endpoint. -/
theorem Distinct.step_iff (c : Call) : Distinct cfg (step cfg w c).entry ↔ Alone cfg w c := by
  cases c with
  | openPcb a => exact iff_of_true (h.openPcb a) trivial
  | close i => exact iff_of_true (h.close i) trivial
  | bind a => exact iff_of_true (h.bind a) trivial
  | connect a => exact iff_of_true (h.connect a) trivial
  | disconnect i => exact h.disconnect_iff i
  | setOpts a => exact iff_of_true (h.setOpts a) trivial

omit h

theorem clear_distinct {cfg : Config} {w : Work} : Distinct cfg (clear w).entry :=
  fun _ _ _ _ _ => not_clash_unbound (.inl rfl)

end Steps

/-- In every run from `clear` open bindings are distinguishable exactly if no `disconnect` makes one like an open
unconnected one. -/
theorem run_distinct_iff (cfg : Config) (w : Work) (cs : List Call) :
    (∀ n,Distinct cfg (run (step cfg) (clear w) (cs.take n)).entry) ↔ Along (step cfg) (Alone cfg) (clear w) cs := by
  have hstep : ∀ s c,Distinct cfg s.entry → (Distinct cfg (step cfg s c).entry ↔ Alone cfg s c) := fun s c h => h.step_iff c
  exact (every_iff_along hstep).trans (and_iff_right (clear_distinct))

/-- A binding connected, a second one bound to its local endpoint, and the first disconnected. -/
def reunited : List Call :=
  [.openPcb ⟨4,false⟩,.bind ⟨some (.ofList [10,0,0,1]),0,0,7,0,0⟩,.connect ⟨some (.ofList [10,0,0,2]),0,0,9,0,0⟩,
    .openPcb ⟨4,false⟩,.bind ⟨some (.ofList [10,0,0,1]),0,1,7,0,0⟩,.disconnect 0]

/-- A borrow before `clear`. -/
def Work.blank : Work := ⟨false,fun _ => .zero,⟨.err,0,0,.zero⟩⟩

/-- The two bindings are then indistinguishable. -/
theorem reunited_clash :
    let s := run (step .shipped) (clear .blank) reunited
    Clash (s.entry 0) (s.entry 1) ∧ s.io.status=.ok :=
  ⟨⟨by decide,by decide,by decide,by decide,by decide,by decide,by decide,by decide⟩,by decide⟩

section Find

variable (w : Work) (a : FindArgs)

/-- The first of the highest rank among the entries below a bound that admit. -/
structure Leads (n best : ℕ) : Prop where
  lt : best<n
  admits : admits (w.entry best) a
  first : ∀ j<n,UdpPcb.admits (w.entry j) a → rank (w.entry j) a < rank (w.entry best) a ∨
    (rank (w.entry j) a=rank (w.entry best) a ∧ best≤j)

theorem matched_spec {n : ℕ} : (matched w a n=none ∧ ∀ j<n,¬admits (w.entry j) a) ∨
    ∃ best,matched w a n=some best ∧ Leads w a n best := by
  induction n with
  | zero => exact .inl ⟨rfl,fun j hj => absurd hj (Nat.not_lt_zero j)⟩
  | succ n ih =>
    unfold matched
    rcases ih with ⟨hm,hnn⟩|⟨best,hm,hl⟩
    · rw [hm]
      by_cases hn : admits (w.entry n) a
      · refine .inr ⟨n,if_pos hn,Nat.lt_succ_self n,hn,fun j hj hja => ?_⟩
        rcases Nat.lt_succ_iff_lt_or_eq.1 hj with hj|rfl
        · exact absurd hja (hnn j hj)
        · exact .inr ⟨rfl,le_rfl⟩
      refine .inl ⟨if_neg hn,fun j hj => ?_⟩
      rcases Nat.lt_succ_iff_lt_or_eq.1 hj with hj|rfl
      · exact hnn j hj
      · exact hn
    rw [hm]
    by_cases hn : admits (w.entry n) a ∧ rank (w.entry best) a < rank (w.entry n) a
    · refine .inr ⟨n,if_pos hn,Nat.lt_succ_self n,hn.1,fun j hj hja => ?_⟩
      rcases Nat.lt_succ_iff_lt_or_eq.1 hj with hj|rfl
      · have hf := hl.first j hj hja
        omega
      · exact .inr ⟨rfl,le_rfl⟩
    refine .inr ⟨best,if_neg hn,hl.lt.trans (Nat.lt_succ_self n),hl.admits,fun j hj hja => ?_⟩
    rcases Nat.lt_succ_iff_lt_or_eq.1 hj with hj|rfl
    · exact hl.first j hj hja
    have hno : ¬rank (w.entry best) a < rank (w.entry j) a := fun h => hn ⟨hja,h⟩
    have hlt := hl.lt
    omega

/-- Each entry of the other kind that admits is outranked, or preceded at its rank, by one of the kind. -/
def KindFirst (cfg : Config) (lite : Bool) : Prop :=
  ∀ j < cfg.udpPcbs,admits (w.entry j) a → (w.entry j).lite≠lite →
    ∃ i < cfg.udpPcbs,admits (w.entry i) a ∧ (w.entry i).lite=lite ∧
      (rank (w.entry j) a < rank (w.entry i) a ∨ (rank (w.entry j) a=rank (w.entry i) a ∧ i<j))

variable {w a}

/-- The entry that leads is of a kind exactly if the kind comes first. -/
theorem Leads.kind_iff {cfg : Config} {lite : Bool} {best : ℕ} (h : Leads w a cfg.udpPcbs best) :
    (w.entry best).lite=lite ↔ KindFirst w a cfg lite := by
  constructor
  · intro hk j hj hja ho
    refine ⟨best,h.lt,h.admits,hk,?_⟩
    have hne : best≠j := fun heq => ho (heq ▸ hk)
    have hf := h.first j hj hja
    omega
  · intro hf
    by_contra ho
    obtain ⟨i,hi,hia,-,hr⟩ := hf best h.lt h.admits ho
    have hl := h.first i hi hia
    omega

/-- `find` looks at the table. -/
def looks (w : Work) (a : FindArgs) : Bool :=
  w.ready && a.localIp.isSome && a.remoteIp.isSome && (a.ipVersion==4 || a.ipVersion==6) && (a.cksumLen==0 || decide (8≤a.cksumLen))

theorem looks_iff : looks w a ↔ ¬(w.ready=false ∨ a.localIp=none ∨ a.remoteIp=none ∨ (a.ipVersion≠4 ∧ a.ipVersion≠6) ∨ (a.cksumLen≠0 ∧ a.cksumLen<8)) := by
  simp only [looks,Bool.and_eq_true,Bool.or_eq_true,beq_iff_eq,decide_eq_true_eq,not_or,not_and_or,not_not,BitVec.not_lt,
    Bool.not_eq_false,and_assoc,Option.isSome_iff_ne_none,ne_eq]

/-- What `find` reports: the entry that leads, where it looks and one admits. -/
theorem find_spec {cfg : Config} {w : Work} {a : FindArgs} :
    ((find cfg w a).io.status=.err ∧ ¬(looks w a ∧ ∃ j < cfg.udpPcbs,admits (w.entry j) a)) ∨
      ∃ best,looks w a ∧ Leads w a cfg.udpPcbs best ∧ (find cfg w a).io.status=.ok ∧ (find cfg w a).io.index=best := by
  unfold find
  by_cases hl : looks w a
  · have hgo := looks_iff.1 hl
    rw [if_neg hgo]
    have ht : matched {w with io := {w.io with status := .err,index := noneIndex}} a cfg.udpPcbs=matched w a cfg.udpPcbs := by
      generalize cfg.udpPcbs=n
      induction n with
      | zero => rfl
      | succ n ih =>
        unfold matched
        rw [ih]
    rw [ht]
    rcases matched_spec w a with ⟨hm,hn⟩|⟨best,hm,hld⟩
    · rw [hm]
      exact .inl ⟨rfl,fun h => h.2.elim fun j hj => hn j hj.1 hj.2⟩
    · rw [hm]
      exact .inr ⟨best,hl,hld,rfl,rfl⟩
  · rw [if_pos (not_not.1 (looks_iff.not.1 hl))]
    exact .inl ⟨rfl,fun h => hl h.1⟩

end Find

end IdemIp.UdpPcb

namespace IdemIp.Dispatch

/-- A payload that goes no further. -/
def Answer.refused (kind : UpperKind) (why : Drop) : Answer := ⟨false,kind,0,false,false,false,why,0⟩

/-- A payload that is delivered. -/
def Answer.given (kind : UpperKind) (row : ℕ) : Answer := ⟨false,kind,row,true,false,false,.none,0⟩

/-- The octets a Checksum Coverage spans, `udplite_cov_span`. -/
def covSpan (cov len : ℕ) : Option ℕ :=
  if len<8 then none
  else if cov=0 then some len
  else if cov<8 then none
  else if len < cov then none
  else some cov

namespace Udp

/-- The borrows of UDP. -/
structure Units where
  udpPcb : Option UdpPcb.Work
  udplite : Option Bool

/-- A datagram as `d_udp` is handed it. -/
structure Datagram where
  io : Io
  (udp localIp remoteIp : Octets)
  ipVersion : ℕ

variable (d : Datagram) (cfg : Config) (k : Units)

/-- The checksum over `span` octets and the pseudo-header, zero when intact. -/
def Datagram.sum (proto : BitVec 8) (len span : ℕ) : Option (BitVec 16) :=
  (Checksum.pseudo 0 d.ipVersion proto d.remoteIp d.localIp (BitVec.ofNat 32 len)).map fun sum =>
    Checksum.final (Checksum.accum sum d.udp span)

/-- Length, and in UDP-Lite the Checksum Coverage. -/
def Datagram.len : BitVec 16 := (d.udp.drop 4).rd16

def Datagram.cksum : BitVec 16 := (d.udp.drop 6).rd16

/-- The RFC 768 checksum holds, or IPv4 carries none, `d_udp_cksum_ok`. -/
def udpCksumOk : Bool := if d.cksum=0 then d.ipVersion != 6 else d.sum 17 d.len.toNat d.len.toNat==some 0

/-- The coverage the bindings are asked with, `idemip_udplite_check` and what `d_udp` makes of it. -/
def udpliteCheck (ready : Bool) : Except Drop (BitVec 16) :=
  if ready=false then .error .short
  else match Checksum.pseudo 0 d.ipVersion 136 d.remoteIp d.localIp (BitVec.ofNat 32 d.io.payloadLen) with
    | none => .error .short
    | some sum =>
      match covSpan d.len.toNat d.io.payloadLen with
      | none => .error .short
      | some span =>
        if d.cksum=0 ∨ Checksum.final (Checksum.accum sum d.udp span)≠0 then .error .cksum
        else .ok (if span=d.io.payloadLen then 0 else d.len)

/-- The coverage of a datagram that checks out. -/
def coverage (lite : Bool) : Except Drop (BitVec 16) :=
  if d.io.payloadLen<8 then .error .short
  else if lite then
    match k.udplite with
    | none => .error .unbound
    | some ready => udpliteCheck d ready
  else if d.len<8 ∨ d.io.payloadLen<d.len.toNat then .error .short
  else if udpCksumOk d then .ok 0
  else .error .cksum

/-- What the bindings are asked. -/
def findArgs (cov : BitVec 16) : UdpPcb.FindArgs :=
  ⟨some d.localIp,some d.remoteIp,(d.udp.drop 2).rd16,d.udp.rd16,cov,BitVec.ofNat 8 d.ipVersion,0,0,BitVec.ofNat 8 d.io.netif⟩

/-- A datagram of either kind, `d_udp`. -/
def dUdp (lite : Bool) : Answer :=
  match k.udpPcb with
  | none => .refused .none .unbound
  | some u =>
    match coverage d k lite with
    | .error why => .refused .none why
    | .ok cov =>
      let u := UdpPcb.find cfg u (findArgs d cov)
      if u.io.status≠.ok then .refused .none .noPcb
      else .given .udp u.io.index

/-- The datagram of a payload, by the family that carries it. -/
def datagramOf (io : Io) (frame : Octets) : Datagram :=
  let ip := frame.drop io.ipOff
  if io.ipVersion=6 then ⟨io,frame.drop io.payloadOff,ip.drop 24,ip.drop 8,6⟩
  else ⟨io,frame.drop io.payloadOff,ip.drop 16,ip.drop 12,4⟩

/-- An environment with these bindings, and its own other transports. -/
def env (e : Env) : Env :=
  {e with upper := fun v io a =>
    match v with
    | .udp => dUdp (datagramOf io (a.frame.getD .zero)) cfg k false
    | .udplite => dUdp (datagramOf io (a.frame.getD .zero)) cfg k true
    | _ => e.upper v io a}

variable (lite : Bool)

/-- The table and the question a datagram is looked up with, if nothing before stops it. -/
def asked : Option (UdpPcb.Work×UdpPcb.FindArgs) :=
  match k.udpPcb,coverage d k lite with
  | some u,.ok cov => if UdpPcb.looks u (findArgs d cov) then some (u,findArgs d cov) else none
  | _,_ => none

/-- Nothing is asked about where the protocol was named. -/
theorem asked_errPtr (io : Io) (ptr : ℕ) (frame : Octets) (lite : Bool) :
    asked (datagramOf {io with errPtr := ptr} frame) k lite=asked (datagramOf io frame) k lite := by
  unfold datagramOf
  dsimp only
  split_ifs <;> rfl

/-- A datagram is refused, where no binding is asked or none admits it, or given to the binding that leads. -/
theorem dUdp_spec : (∃ why,dUdp d cfg k lite=.refused .none why) ∧ (∀ u f,asked d k lite=some (u,f) → ∀ j < cfg.udpPcbs,¬UdpPcb.admits (u.entry j) f) ∨
    ∃ u f best,k.udpPcb=some u ∧ asked d k lite=some (u,f) ∧ UdpPcb.Leads u f cfg.udpPcbs best ∧
      dUdp d cfg k lite=.given .udp best := by
  unfold dUdp asked
  cases hp : k.udpPcb with
  | none => exact .inl ⟨⟨_,rfl⟩,nofun⟩
  | some u =>
    cases hc : coverage d k lite with
    | error why => exact .inl ⟨⟨_,rfl⟩,nofun⟩
    | ok cov =>
      dsimp only
      rcases UdpPcb.find_spec with ⟨hs,hno⟩|⟨best,hl,hld,hs,hi⟩
      · rw [hs,if_pos (by decide)]
        refine .inl ⟨⟨_,rfl⟩,fun v f h j hj hja => hno ?_⟩
        by_cases hl : UdpPcb.looks u (findArgs d cov)
        · rw [if_pos hl] at h
          cases h
          exact ⟨hl,j,hj,hja⟩
        · rw [if_neg hl] at h
          cases h
      · rw [if_pos hl,if_neg (not_not.2 hs),hi]
        exact .inr ⟨u,findArgs d cov,best,rfl,rfl,hld,rfl⟩

end Udp

/-- A datagram that is delivered to a UDP binding reaches one of its own kind. -/
def Parted (k : Udp.Units) (io : Io) : Prop :=
  io.act.deliver → io.pcbKind=.udp → ∀ u,k.udpPcb=some u →
    (io.proto=17 → (u.entry io.pcb).lite=false) ∧ (io.proto=136 → (u.entry io.pcb).lite)

/-- The answer to a datagram names a binding of its kind exactly if the kind comes first among those that admit it. -/
theorem answered_parted_iff {cfg : Config} {k : Udp.Units} {io : Io} {d : Udp.Datagram} (lite : Bool)
    (hp : io.proto=if lite then 136 else 17) :
    Parted k (io.answered (Udp.dUdp d cfg k lite)) ↔ ∀ u f,Udp.asked d k lite=some (u,f) → UdpPcb.KindFirst u f cfg lite := by
  rcases Udp.dUdp_spec d cfg k lite with ⟨⟨why,hw⟩,hnn⟩|⟨u,f,best,hpc,ha,hld,hg⟩
  · rw [hw]
    exact iff_of_true nofun fun u f h j hj hja _ => absurd hja (hnn u f h j hj)
  rw [hg]
  have hk : (u.entry best).lite=lite ↔ UdpPcb.KindFirst u f cfg lite := hld.kind_iff
  have hpr : Parted k (io.answered (.given .udp best)) ↔ (u.entry best).lite=lite := by
    cases lite with
    | false =>
      constructor
      · exact fun h => (h rfl rfl u hpc).1 hp
      · intro hl _ _ v hv
        cases hpc.symm.trans hv
        refine ⟨fun _ => hl,fun h => ?_⟩
        have hc : (17 : BitVec 8)=136 := hp.symm.trans h
        exact absurd hc (by decide)
    | true =>
      constructor
      · exact fun h => (h rfl rfl u hpc).2 hp
      · intro hl _ _ v hv
        cases hpc.symm.trans hv
        refine ⟨fun h => ?_,fun _ => hl⟩
        have hc : (136 : BitVec 8)=17 := hp.symm.trans h
        exact absurd hc (by decide)
  rw [hpr,hk]
  constructor
  · intro h v g hvg
    cases ha.symm.trans hvg
    exact h
  · exact fun h => h u f ha

/-- `input` keeps UDP and UDP-Lite apart exactly for frames whose datagram finds its own kind first among the bindings
that admit it. -/
theorem input_parted_iff (cfg : Config) (k : Udp.Units) (e : Env) (s : Stack) (a : InputArgs) :
    Parted k (input cfg (Udp.env cfg k e) s a).side.io ↔ ∀ io,payloadOf cfg e s a=some io → io.proto=17 ∨ io.proto=136 →
        ∀ u f,Udp.asked (Udp.datagramOf io (a.frame.getD .zero)) k (io.proto==136)=some (u,f) →
          UdpPcb.KindFirst u f cfg (io.proto==136) := by
  have hsame : payloadOf cfg (Udp.env cfg k e) s a=payloadOf cfg e s a := rfl
  rcases input_routes cfg (Udp.env cfg k e) s a with ⟨io,ptr,hsome,-,-,hpass⟩|⟨hnone,-,hstill⟩
  · rw [hsame] at hsome
    have hone : (∀ io',payloadOf cfg e s a=some io' → io'.proto=17 ∨ io'.proto=136 →
        ∀ u f,Udp.asked (Udp.datagramOf io' (a.frame.getD .zero)) k (io'.proto==136)=some (u,f) →
          UdpPcb.KindFirst u f cfg (io'.proto==136)) ↔
      (io.proto=17 ∨ io.proto=136 → ∀ u f,Udp.asked (Udp.datagramOf io (a.frame.getD .zero)) k (io.proto==136)=some (u,f) →
          UdpPcb.KindFirst u f cfg (io.proto==136)) := by
      rw [hsome]
      simp
    have hasked := Udp.asked_errPtr k io ptr (a.frame.getD .zero)
    have hproto : ({io with errPtr := ptr} : Io).proto=io.proto := rfl
    rw [hone,hpass]
    generalize ({io with errPtr := ptr} : Io)=t at hasked hproto ⊢
    have hup : t.proto≠6 → (passed cfg (Udp.env cfg k e) s a (a.frame.getD .zero) t).side.io=
        t.answered ((Udp.env cfg k e).upper (upperOf t.ipVersion t.proto) t a) := fun h => by rw [passed,if_neg h]; rfl
    by_cases h17 : io.proto=17
    · have ht := hproto.trans h17
      rw [hup (by rw [ht]; decide),show upperOf t.ipVersion t.proto=.udp by simp [upperOf,ht]]
      refine (answered_parted_iff false ht).trans ?_
      rw [hasked,h17]
      exact ⟨fun h _ => h,fun h => h (.inl rfl)⟩
    by_cases h136 : io.proto=136
    · have ht := hproto.trans h136
      rw [hup (by rw [ht]; decide),show upperOf t.ipVersion t.proto=.udplite by simp [upperOf,ht]]
      refine (answered_parted_iff true ht).trans ?_
      rw [hasked,h136]
      exact ⟨fun h _ => h,fun h => h (.inr rfl)⟩
    have hother : (passed cfg (Udp.env cfg k e) s a (a.frame.getD .zero) t).side.io.proto=io.proto := by
      by_cases h6 : t.proto=6
      · rw [passed,if_pos h6,handed_side]
        refine (dTcp_tcpFrame cfg _ a _ _ _ _).proto.trans ?_
        show (arrivalAt (a.frame.getD .zero) t).io.proto=io.proto
        rw [(arrivalAt_parts _ _).1,hproto]
      · rw [hup h6]
        exact hproto
    refine iff_of_true (fun _ _ u _ => ?_) fun h => absurd h (not_or.2 ⟨h17,h136⟩)
    rw [hother]
    exact ⟨fun h => absurd h h17,fun h => absurd h h136⟩
  · rw [hsame] at hnone
    rw [hnone]
    exact iff_of_true (fun _ hudp => absurd hudp hstill.1) fun io h => by cases h

/-- The bindings hold one, UDP-Lite on port 7 over IPv4. -/
def Udp.Units.liteOnly : Udp.Units :=
  ⟨some (StepRun.run (UdpPcb.step .shipped) (UdpPcb.clear .blank) [.openPcb ⟨4,true⟩,.bind ⟨some .zero,0,0,7,0,0⟩]),some true⟩

/-- A frame with a UDP datagram for port 7 and no data. -/
def plainUdp : InputArgs :=
  ⟨some (.ofList (List.replicate 12 0++[8,0,0x45,0,0,28,0,0,0,0,64,17,0x66,0xCF,10,0,0,1,10,0,0,2,0,9,0,7,0,8,0,0])),42,
    none,0,0,0,0⟩

/-- The UDP-Lite binding takes it. -/
theorem plainUdp_crosses :
    let u := input .shipped (Udp.env .shipped .liteOnly (.host 0x0A000002)) Stack.booted plainUdp
    u.side.io.act.deliver=true ∧ u.side.io.proto=17 ∧ ¬Parted .liteOnly u.side.io := by
  have hrun : let u := input .shipped (Udp.env .shipped .liteOnly (.host 0x0A000002)) Stack.booted plainUdp
      u.side.io.act.deliver=true ∧ u.side.io.proto=17 ∧ u.side.io.pcbKind=.udp ∧
        ((Udp.Units.liteOnly.udpPcb.map fun w => (w.entry u.side.io.pcb).lite)=some true) := by
    decide +kernel
  obtain ⟨hdeliver,hproto,hkind,hlite⟩ := hrun
  refine ⟨hdeliver,hproto,fun h => ?_⟩
  have hopen : Udp.Units.liteOnly.udpPcb=some _ := rfl
  rw [hopen] at hlite
  have hplain := (h hdeliver hkind _ hopen).1 hproto
  rw [Option.map_some,hplain] at hlite
  exact absurd hlite (by decide)

end IdemIp.Dispatch
