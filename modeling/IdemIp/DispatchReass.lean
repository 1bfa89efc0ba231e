import IdemIp.DispatchEffects
import IdemIp.Ip6ReassCover

/-!
# Reassembled packets

A completed packet is reported only from a fragment whose chain was screened, so
none leads to a Neighbor Discovery message.
-/

namespace IdemIp.Dispatch

open StepRun Ip4 Ip6Reass

section Route

variable (cfg : Config) (s : Side) (a : InputArgs)

/-- A segment completes no packet, and stays one. -/
theorem dTcp_tcpFrame (fr lip rip : Octets) (ver : ℕ) : TcpFrame s.io (dTcp cfg s a fr lip rip ver).io := by
  have hroute := dTcp_route cfg s a fr lip rip ver
  generalize dTcp cfg s a fr lip rip ver=u at hroute ⊢
  cases hroute with
  | ends tp ti io htab hr hk hd hf => exact hf
  | segment i hi => exact (dTcpSegment_ran cfg (loadedAt cfg s fr lip rip ver i) a i).frame
  | syn l i hn hl hp hsyn hi hfree hopen =>
    unfold dTcpAccept
    dsimp only
    split_ifs <;> exact ⟨rfl,rfl⟩

/-- What a call does to the IPv6 reassembler, and what it reports of it. -/
inductive Reassembly (cfg : Config) (s : Stack) (a : InputArgs) (u : Stack) : Prop
  /-- It is not called, and no packet is reported. -/
  | idle (hre : u.ip6Reass=s.ip6Reass) (hno : u.side.io.act.reassembled → u.side.io.ipVersion≠6)
  /-- It is handed a screened fragment, and reports a packet when that completed one. -/
  | taken (frame : Octets) (x : Ip6Reass.InputArgs) (hframe : a.frame=some frame) (hx : Ip6Reass.Screened x)
    (hpkt : x.pkt=frame.drop u.side.io.ipOff) (hre : u.ip6Reass=Ip6Reass.input cfg s.ip6Reass x)
    (hdone : u.side.io.act.reassembled → u.ip6Reass.io.complete ∧ u.side.io.datagram=u.ip6Reass.io.datagram)

variable {cfg a} {s : Stack}

theorem Reassembly.of_none {u : Stack} (hre : u.ip6Reass=s.ip6Reass) (hno : u.side.io.act.reassembled=false) :
    Reassembly cfg s a u := by
  refine .idle hre fun hy => ?_
  rw [hno] at hy
  cases hy

theorem dIp6Frag_reassembly {fr : Octets} {totalLen fragHdr : ℕ} (hf : a.frame=some fr)
    (hno : s.side.io.act.reassembled=false)
    (hx : ∀ desc,Ip6Reass.Screened ⟨fr.drop s.side.io.ipOff,totalLen,fragHdr,desc,a.nowMs⟩) :
    Reassembly cfg s a (dIp6Frag cfg s a (fr.drop s.side.io.ipOff) totalLen fragHdr) := by
  unfold dIp6Frag
  dsimp only
  split
  · exact .of_none rfl hno
  rw [dPin_eq]
  generalize (dPin cfg s.side s.side.io.netif a.desc).1.ring=ring
  split
  · exact .of_none rfl hno
  split
  · rw [dUnpin_eq]
    refine .taken fr _ hf (hx (s.handle a)) rfl rfl fun hy => ?_
    cases hno.symm.trans hy
  refine .taken fr _ hf (hx (s.handle a)) rfl rfl fun hy => ⟨?_,rfl⟩
  have hyes : (s.side.io.act.reassembled || (Ip6Reass.input cfg s.ip6Reass
    ⟨fr.drop s.side.io.ipOff,totalLen,fragHdr,s.handle a,a.nowMs⟩).io.complete) := hy
  rw [hno,Bool.false_or] at hyes
  exact hyes

theorem screened_reass {ip6 : Octets} (h : screened ip6=true) (desc : ℕ) (now : BitVec 32) :
    Ip6Reass.Screened ⟨ip6,40+Ip6.payloadLen ip6,(Ip6.walk ip6 (40+Ip6.payloadLen ip6)).fragHdr,desc,now⟩ := by
  simp only [screened,Bool.and_eq_true,Bool.not_eq_true'] at h
  refine ⟨rfl,h.1,rfl,fun h0 h58 hlt hy => absurd h.2 ?_⟩
  simp only [fragNd,h58,h0,hlt,hy]
  decide

variable (cfg a s) in
/-- A frame hands the reassembler one screened fragment or none. -/
theorem input_reassembly (e : Env) : Reassembly cfg s a (input cfg e s a) := by
  rcases input_route cfg e s a with ⟨r,hr,hu⟩|⟨-,ho⟩
  · rw [hu]
    refine .of_none rfl (((dTcp_tcpFrame cfg _ a _ _ _ _).reassembled).trans ?_)
    exact congrArg Act.reassembled (arrival_some hr).act
  generalize input cfg e s a=u at ho ⊢
  cases ho with
  | ends io ifRow hio hrow => exact .of_none rfl hio.2
  | arp io hio x => exact .of_none rfl hio.2
  | frag4 io hio h4 hn ip4 =>
    obtain ⟨ring,io',re,he,ha⟩ := dIp4Frag_frame cfg (s.withIo io) a ip4
    rw [he]
    refine .idle rfl fun _ => ?_
    show io'.ipVersion≠6
    rw [ha.version]
    exact h4 ▸ by decide
  | frag6 io hio hn fr ip6 hfr hip hs =>
    subst hip
    have h : Reassembly cfg (s.withIo io) a _ := dIp6Frag_reassembly hfr hio.2 fun desc => screened_reass hs desc a.nowMs
    cases h with
    | idle hre hno => exact .idle hre hno
    | taken frame x hf hx hp hre hd => exact .taken frame x hf hx hp hre hd

end Route

/-- What can happen to a stack, as far as IPv6 reassembly is concerned. -/
inductive Happening
  /-- A frame, and what the units outside answer to it. -/
  | input (e : Env) (a : InputArgs)
  /-- A reader asks the reassembler for a fragment. -/
  | fragAt (d index : ℕ)
  /-- A packet is read out or given up. -/
  | drop (d : ℕ)
  | tick (nowMs : BitVec 32)
  | other (f : Stack → Stack) (h : ∀ s,(f s).ip6Reass=s.ip6Reass)

/-- Run a call of the reassembler alone. -/
def Stack.onReass (s : Stack) (f : Ip6Reass.Work → Ip6Reass.Work) : Stack := {s with ip6Reass := f s.ip6Reass}

/-- One happening, with the packets that then lie behind the fragment entries. -/
def watch (cfg : Config) (s : Stack×Ip6Reass.Memory) : Happening → Stack×Ip6Reass.Memory
  | .input e a =>
    let u := input cfg e s.1 a
    (u,match a.frame with
      | none => s.2
      | some frame => Ip6Reass.filedIn s.1.ip6Reass u.ip6Reass (frame.drop u.side.io.ipOff) s.2)
  | .fragAt d index => (s.1.onReass fun w => Ip6Reass.fragAt cfg w d index,s.2)
  | .drop d => (s.1.onReass fun w => Ip6Reass.drop cfg w d,s.2)
  | .tick nowMs => (s.1.onReass fun w => Ip6Reass.tick cfg w nowMs,s.2)
  | .other f _ => (f s.1,s.2)

/-- A completed packet a call reports leads to a Neighbor Discovery message. -/
def reportsNd (cfg : Config) (s : Stack×Ip6Reass.Memory) : Bool :=
  Ip6Reass.carriesNd (Ip6Reass.assembled cfg s.1.ip6Reass s.2 s.1.side.io.datagram) (40+s.1.ip6Reass.io.totalLen)

section Runs

variable {cfg : Config}

/-- A frame keeps the reassembler sound, and a packet it completes is no Neighbor Discovery message. -/
theorem watch_input (s : Stack×Ip6Reass.Memory) (e : Env) (a : InputArgs) (h : Ip6Reass.Sound cfg s.1.ip6Reass s.2) :
    Ip6Reass.Sound cfg (watch cfg s (.input e a)).1.ip6Reass (watch cfg s (.input e a)).2 ∧
      ((watch cfg s (.input e a)).1.side.io.act.reassembled → (watch cfg s (.input e a)).1.side.io.ipVersion=6 →
        reportsNd cfg (watch cfg s (.input e a))=false) := by
  have hr := input_reassembly cfg a s.1 e
  unfold reportsNd watch
  dsimp only
  generalize input cfg e s.1 a=u at hr ⊢
  cases hr with
  | idle hre hno =>
    have hm : (match a.frame with
        | none => s.2
        | some frame => filedIn s.1.ip6Reass u.ip6Reass (frame.drop u.side.io.ipOff) s.2)=s.2 := by
      cases a.frame with
      | none => rfl
      | some frame =>
        rw [hre]
        exact filedIn_alike (.of_eq rfl rfl rfl ⟨rfl,rfl⟩)
    rw [hm,hre]
    exact ⟨h,fun hy h6 => absurd h6 (hno hy)⟩
  | taken frame x hf hx hp hre hd =>
    obtain ⟨hs,hq⟩ := h.taken hx
    rw [hf]
    dsimp only
    rw [←hp,hre]
    refine ⟨hs,fun hy _ => ?_⟩
    obtain ⟨hc,hn⟩ := hd hy
    rw [hre] at hc hn
    rw [hn]
    exact hq hc

/-- The reassembler of a stack is sound with the packets behind its entries. -/
def WatchedSound (cfg : Config) (s : Stack×Ip6Reass.Memory) : Prop := Ip6Reass.Sound cfg s.1.ip6Reass s.2

theorem watch_sound (s : Stack×Ip6Reass.Memory) (x : Happening) (h : WatchedSound cfg s) : WatchedSound cfg (watch cfg s x) := by
  cases x with
  | input e a => exact (watch_input s e a h).1
  | fragAt d index => exact Ip6Reass.Sound.alike h (fragAt_alike)
  | drop d => exact Ip6Reass.Sound.dropped h d
  | tick nowMs => exact Ip6Reass.Sound.alike h (tick_alike)
  | other f hf =>
    show Ip6Reass.Sound cfg (f s.1).ip6Reass s.2
    rw [hf]
    exact h

/-- Whatever happened since `clear`, no completed IPv6 packet that is reported leads to a Neighbor Discovery message. -/
theorem run_reports_no_nd (cfg : Config) (s : Stack) (mem : Ip6Reass.Memory) (xs : List Happening) (e : Env) (a : InputArgs)
    (hdone : (watch cfg (run (watch cfg) (s.onReass Ip6Reass.clear,mem) xs) (.input e a)).1.side.io.act.reassembled=true)
    (h6 : (watch cfg (run (watch cfg) (s.onReass Ip6Reass.clear,mem) xs) (.input e a)).1.side.io.ipVersion=6) :
    reportsNd cfg (watch cfg (run (watch cfg) (s.onReass Ip6Reass.clear,mem) xs) (.input e a))=false := by
  have hclear : Ip6Reass.Sound cfg (s.onReass Ip6Reass.clear).ip6Reass mem := Ip6Reass.sound_clear
  have hrun : WatchedSound cfg (run (watch cfg) (s.onReass Ip6Reass.clear,mem) xs) := run_always watch_sound hclear
  exact (watch_input _ e a hrun).2 hdone h6

/-- A fragment of a UDP datagram: eight octets behind an offset and flag. -/
def udpFragment (place : BitVec 16) (desc : ℕ) : InputArgs :=
  ⟨some (.ofList (List.replicate 12 0++[0x86,0xDD,0x60,0,0,0,0,16,44,64]++List.replicate 32 0x20++[17,0]++octets16 place++
    [0,0,0,1]++List.replicate 8 7)),70,none,0,0,desc,0⟩

/-- A host that has every IPv6 address. -/
def Env.everyone : Env := {Env.host 0 with findAddr6 := fun _ => true}

/-- The last fragment and then the first complete a datagram. -/
theorem run_reports_no_nd_udp :
    let t := run (watch .shipped) (Stack.booted.onReass Ip6Reass.clear,fun _ => .zero) [.input .everyone (udpFragment 8 0)]
    let u := watch .shipped t (.input .everyone (udpFragment 1 1))
    u.1.side.io.act.reassembled=true ∧ u.1.side.io.ipVersion=6 ∧ reportsNd .shipped u=false := by
  have hdone : (watch .shipped (run (watch .shipped) (Stack.booted.onReass Ip6Reass.clear,fun _ => .zero)
      [.input .everyone (udpFragment 8 0)]) (.input .everyone (udpFragment 1 1))).1.side.io.act.reassembled=true := by
    decide +kernel
  have h6 : (watch .shipped (run (watch .shipped) (Stack.booted.onReass Ip6Reass.clear,fun _ => .zero)
      [.input .everyone (udpFragment 8 0)]) (.input .everyone (udpFragment 1 1))).1.side.io.ipVersion=6 := by
    decide +kernel
  exact ⟨hdone,h6,run_reports_no_nd .shipped Stack.booted (fun _ => .zero) [.input .everyone (udpFragment 8 0)] .everyone
    (udpFragment 1 1) hdone h6⟩

end Runs

end IdemIp.Dispatch
