import IdemIp.DispatchEffects
import IdemIp.TcpInReply

/-!
# What the tables hold behind a segment, and what they owe

The segment machine and the connection tables agree on the permitted transitions but
for one: a segment that answers a SYN and carries a FIN takes SYN-SENT to CLOSE-WAIT
in one call, which the tables refuse. An acknowledgment that is owed is formed from
the row when the batch is flushed.
-/

namespace IdemIp.Dispatch

open TcpIn TcpPcb

section Machine

theorem listen_transition (w : TcpIn.Work) : TcpPcb.transitionOk w.io.state (TcpIn.listen w).io.state := by
  have hsl : transitionOk w.io.state w.io.state := by cases w.io.state <;> decide
  unfold TcpIn.listen
  split_ifs with hg
  · exact hsl
  · exact hsl
  · exact hsl
  · have hs : w.io.state=.listen := by
      by_contra hs
      simp [hs] at hg
    rw [hs]
    rfl
  · exact hsl

theorem closed_state (w : TcpIn.Work) : (TcpIn.closed w).io.state=w.io.state := by
  unfold closed
  split_ifs <;> rfl

/-- The entry a state selects asks for a refused transition exactly when a segment opens and ends the connection. -/
theorem runIn_transition (cfg : Config) (w : TcpIn.Work) :
    TcpPcb.transitionOk w.io.state (runIn cfg w).io.state= !TcpIn.opensClosing w := by
  unfold runIn
  by_cases hs : w.io.state=.synSent
  · rw [if_pos hs]
    exact synSent_transition cfg w
  have hno : opensClosing w=false := by simp [opensClosing,hs]
  rw [if_neg hs,hno]
  split_ifs with hc
  · rw [closed_state,hc]
    rfl
  · exact segment_transition cfg w

end Machine

section Stored

variable (cfg : Config) {s : Side} {a : InputArgs} {fr lip rip : Octets} {ver i : ℕ}

/-- Whether a connection's row is what the machine computed, and the tables took it. -/
def Stored (u : Side) (i : ℕ) : Prop :=
  u.tcpPcb.io.status=.ok ∧ (u.tcpPcb.tab.tcb i).vars=u.tcpIn.io.vars ∧
    (u.tcpPcb.tab.tcb i).ctl=u.tcpIn.io.ctl ∧ (u.tcpPcb.tab.tcb i).state=u.tcpIn.io.state

/-- Behind a segment every other connection keeps all but its first held segment; its own takes the image or is
refused it. -/
theorem dTcpSegment_rows (hi : segmentOf cfg s fr lip rip ver=some i) :
    let u := dTcpSegment cfg (loadedAt cfg s fr lip rip ver i) a i
    let m := runIn cfg (enteredAt s a fr lip rip ver i)
    (∀ k≠i,∃ o,u.tcpPcb.tab.tcb k={s.tcpPcb.tab.tcb k with ooseq := o}) ∧
      if opensClosing (enteredAt s a fr lip rip ver i) then
        u.tcpPcb.io.status≠.ok ∧ ∃ o,u.tcpPcb.tab.tcb i={s.tcpPcb.tab.tcb i with ooseq := o}
      else
        u.tcpPcb.io.status=.ok ∧ ∃ o,u.tcpPcb.tab.tcb i=
          {s.tcpPcb.tab.tcb i with ooseq := o,vars := m.io.vars,ctl := m.io.ctl,state := m.io.state} := by
  intro u m
  obtain ⟨hc,-⟩ := segmentOf_some hi
  obtain ⟨hrd,hlt,hus,-,-⟩ := foundTcb_some cfg hc
  have htp := loadedAt_tcpPcb cfg hc
  obtain ⟨w,hw,he⟩ := (dTcpSegment_ran cfg (loadedAt cfg s fr lip rip ver i) a i).tcpPcb
  rw [machineOf_loadedAt hc] at he
  obtain ⟨hkp,-,hr⟩ := hw.keeps
  rw [htp] at hkp hr
  have hkeep' : ∀ k,∃ o,w.tab.tcb k={s.tcpPcb.tab.tcb k with ooseq := o} := hkp
  have hu : u.tcpPcb=store cfg (w.image m.io.vars m.io.ctl m.io.state) i := he
  obtain ⟨o,ho⟩ := hkeep' i
  have htr := runIn_transition cfg (enteredAt s a fr lip rip ver i)
  have hst : (w.tab.tcb i).state=(enteredAt s a fr lip rip ver i).io.state := by
    rw [ho]
    rfl
  rw [hu]
  split_ifs with hop
  · -- the transition is not in the table
    rw [hop] at htr
    rcases store_cases i with ⟨ht,he⟩|⟨-,-,-,hok,-⟩
    · rw [ht,he]
      exact ⟨fun k _ => hkeep' k,by simp,o,ho⟩
    have hok' : transitionOk (w.tab.tcb i).state m.io.state := hok
    rw [hst,htr] at hok'
    cases hok'
  have hop' : opensClosing (enteredAt s a fr lip rip ver i)=false := by simpa using hop
  rw [hop'] at htr
  have hs := store_eq cfg (w := w.image m.io.vars m.io.ctl m.io.state) (p := i) (hr.trans hrd) hlt
    (by show (w.tab.tcb i).inUse=true; rw [ho]; exact hus)
    (by show transitionOk (w.tab.tcb i).state _=true; rw [hst]; exact htr)
  rw [hs]
  refine ⟨fun k hk => ?_,rfl,o,?_⟩
  · obtain ⟨o',ho'⟩ := hkeep' k
    exact ⟨o',by simp [TcpPcb.Work.done,TcpPcb.Work.image,hk]; exact ho'⟩
  · simp [TcpPcb.Work.done,TcpPcb.Work.image,ho]

theorem segmentOf_unknown {cfg : Config} (h : connOf cfg s fr lip rip ver=none) : segmentOf cfg s fr lip rip ver=none := by
  unfold segmentOf
  rw [h]
  split_ifs <;> rfl

/-- The machine's block as a frame hands it over for one connection, if it does. -/
def enteredBy (cfg : Config) (e : Env) (s : Stack) (a : InputArgs) (p : ℕ) : Option TcpIn.Work :=
  (arrival cfg e s a).bind fun r =>
    if segmentOf cfg (s.facing r) r.frame r.lip r.rip r.ipVersion=some p then
      some (enteredAt (s.facing r) a r.frame r.lip r.rip r.ipVersion p)
    else none

theorem enteredBy_row {cfg : Config} {e : Env} {s : Stack} {a : InputArgs} {p : ℕ} {w : TcpIn.Work}
    (h : enteredBy cfg e s a p=some w) :
    w.io.vars=(s.tab.tcb p).vars ∧ w.io.ctl=(s.tab.tcb p).ctl ∧ w.io.state=(s.tab.tcb p).state ∧
      w.io.listener=(s.tab.tcb p).listener := by
  obtain ⟨r,-,hr⟩ := Option.bind_eq_some_iff.1 h
  split_ifs at hr
  cases hr
  exact ⟨rfl,rfl,rfl,rfl⟩

/-- What a frame does for a connection its segment runs through. -/
structure OwnSegment (cfg : Config) (s : Stack) (p : ℕ) (w : TcpIn.Work) (u : Side) : Prop where
  named : u.io.pcbKind=.tcp ∧ u.io.pcb=p
  deliver : u.io.act.deliver=(runIn cfg w).io.res.act.text
  text : u.io.textSeq=(runIn cfg w).io.res.textSeq ∧ u.io.textOff=(runIn cfg w).io.res.textOff ∧
    u.io.textLen=(runIn cfg w).io.res.textLen
  /-- So is whether a FIN was consumed. -/
  closing : u.io.tcpAct.closing=(runIn cfg w).io.res.act.closing
  /-- The row takes the machine's image, unless the tables refuse it. -/
  row : ∃ o,u.tcpPcb.tab.tcb p=if TcpIn.opensClosing w then {s.tab.tcb p with ooseq := o}
    else {s.tab.tcb p with
      ooseq := o
      vars := (runIn cfg w).io.vars
      ctl := (runIn cfg w).io.ctl
      state := (runIn cfg w).io.state}

/-- A frame runs through a connection in use, or leaves it all but its first held segment and does
not name it. -/
theorem input_row (cfg : Config) (e : Env) (s : Stack) (a : InputArgs) (p : ℕ) (hu : (s.tab.tcb p).inUse) :
    (∃ w,enteredBy cfg e s a p=some w ∧ OwnSegment cfg s p w (input cfg e s a).side) ∨
      enteredBy cfg e s a p=none ∧ ¬((input cfg e s a).side.io.pcbKind=.tcp ∧ (input cfg e s a).side.io.pcb=p) ∧
        ∃ o,(input cfg e s a).tab.tcb p={s.tab.tcb p with ooseq := o} := by
  have hps := input_passage cfg e s a
  show _ ∨ _ ∧ _ ∧ ∃ o,(input cfg e s a).side.tcpPcb.tab.tcb p=_
  unfold enteredBy
  generalize (input cfg e s a).side=u at hps ⊢
  cases hps with
  | unnamed u hk ht hr hn =>
    refine .inr ⟨?_,fun h => hk h.1,_,ht.used p hu⟩
    cases har : arrival cfg e s a with
    | none => rfl
    | some r => simp [hn r har]
  | segment r i hr hi =>
    obtain ⟨hc,-⟩ := segmentOf_some hi
    have hrn := dTcpSegment_ran cfg (loadedAt cfg (s.facing r) r.frame r.lip r.rip r.ipVersion i) a i
    obtain ⟨hot,how⟩ := dTcpSegment_rows cfg (a := a) hi
    rw [hr]
    by_cases hip : i=p
    · subst hip
      refine .inl ⟨enteredAt (s.facing r) a r.frame r.lip r.rip r.ipVersion i,by simp [hi],hrn.named,?_,?_,?_,?_⟩
      · have ha : (s.facing r).io.act.deliver=false := by
          rw [show (s.facing r).io.act=.none from (arrival_some hr).act]
          rfl
        refine hrn.deliver.trans ?_
        show ((s.facing r).io.act.deliver || _)=_
        rw [ha,machineOf_loadedAt hc,Bool.false_or]
      · rw [←machineOf_loadedAt hc]
        exact hrn.text
      · rw [←machineOf_loadedAt hc]
        exact hrn.closing
      · cases hop : opensClosing (enteredAt (s.facing r) a r.frame r.lip r.rip r.ipVersion i) with
        | true =>
          rw [hop,if_pos rfl] at how
          exact how.2
        | false =>
          rw [hop,if_neg nofun] at how
          exact how.2
    · refine .inr ⟨by simp [hi,hip],fun h => hip (hrn.named.2.symm.trans h.2),hot p (Ne.symm hip)⟩
  | made r l i hr hn hl hp hsyn hi hf hopen tp ti hready ho hrow hst hti =>
    have hip : p≠i := by
      rintro rfl
      rw [hf] at hu
      cases hu
    refine .inr ⟨?_,fun h => hip h.2.symm,_,ho.tcb p hip⟩
    have hnn : segmentOf cfg (s.facing r) r.frame r.lip r.rip r.ipVersion=none := segmentOf_unknown hn
    rw [hr]
    simp [hnn]

/-- Whether a frame brings a connection in SYN-SENT a segment that opens and ends it. -/
def opensClosingBy (cfg : Config) (e : Env) (s : Stack) (a : InputArgs) : Bool :=
  match arrival cfg e s a with
  | none => false
  | some r =>
    match segmentOf cfg (s.facing r) r.frame r.lip r.rip r.ipVersion with
    | none => false
    | some i => TcpIn.opensClosing (enteredAt (s.facing r) a r.frame r.lip r.rip r.ipVersion i)

/-- Each entry asks for a permitted transition and each connection holds what was computed, unless a segment opens and
ends it. -/
theorem machine_stored_iff (cfg : Config) : (∀ w : TcpIn.Work,TcpPcb.transitionOk w.io.state (TcpIn.listen w).io.state=true ∧
      TcpPcb.transitionOk w.io.state (TcpIn.closed w).io.state=true ∧
      TcpPcb.transitionOk w.io.state (TcpIn.segment cfg w).io.state=true ∧
      (TcpPcb.transitionOk w.io.state (TcpIn.synSent cfg w).io.state=true ↔ TcpIn.opensClosing w=false)) ∧
    ∀ (e : Env) (s : Stack) (a : InputArgs),(input cfg e s a).side.io.pcbKind=.tcp →
      (Stored (input cfg e s a).side (input cfg e s a).side.io.pcb ↔ opensClosingBy cfg e s a=false) := by
  refine ⟨fun w => ⟨listen_transition w,?_,segment_transition cfg w,?_⟩,fun e s a hk => ?_⟩
  · rw [closed_state]
    cases w.io.state <;> decide
  · rw [synSent_transition]
    cases opensClosing w <;> simp
  · have hpass := input_passage cfg e s a
    unfold opensClosingBy
    generalize (input cfg e s a).side=u at hpass hk ⊢
    cases hpass with
    | unnamed u hne ht hr hn => exact absurd hk hne
    | segment r i hr hi =>
      obtain ⟨hc,-⟩ := segmentOf_some hi
      have hran := dTcpSegment_ran cfg (loadedAt cfg (s.facing r) r.frame r.lip r.rip r.ipVersion i) a i
      have hrow := (dTcpSegment_rows cfg (a := a) hi).2
      rw [hr]
      dsimp only
      rw [hi]
      dsimp only
      rw [hran.named.2]
      unfold Stored
      rw [hran.tcpIn,machineOf_loadedAt hc]
      cases hop : opensClosing (enteredAt (s.facing r) a r.frame r.lip r.rip r.ipVersion i) with
      | true =>
        rw [hop,if_pos rfl] at hrow
        exact iff_of_false (fun h => hrow.1 h.1) (by decide)
      | false =>
        rw [hop,if_neg nofun] at hrow
        obtain ⟨hst,o,ho⟩ := hrow
        rw [ho]
        exact iff_of_true ⟨hst,rfl,rfl,rfl⟩ rfl
    | made r l i hr hn hl hp hsyn hi hfree hopen tp ti hready ho hrow hst hti =>
      have hnone := segmentOf_unknown hn
      rw [hr]
      dsimp only
      rw [hnone]
      refine iff_of_true ⟨hst,?_⟩ rfl
      rw [hrow,hti]
      exact ⟨rfl,rfl,rfl⟩

end Stored

/-- A stack whose connection on row 0 has sent its SYN, number 100, to port 80 of 10.0.0.2. -/
def Stack.dialing : Stack :=
  StepRun.run (step .shipped) Stack.booted [(.app (.openTcb 4) trivial : Event fun _ => True),
      .app (.bind ⟨some (.ofList (octets32 0x0A000001)),0,0,1000,0,0⟩) trivial,
      .app (.connect ⟨some (.ofList (octets32 0x0A000002)),0,0,80,0,0⟩) trivial,
      .app (.store 0 {TcpVars.zero with iss := 100,sndUna := 100,sndNxt := 101,rcvWnd := 1000} .zero .synSent) trivial]

def answer (flags : BitVec 8) : InputArgs := Sent.args ⟨0x0A000002,0x0A000001,80,1000,500,101,flags,[]⟩ 0 0

/-- A plain answer reaches the connection, and the condition decides it. -/
theorem machine_stored_iff_answer :
    (input .shipped (.host 0x0A000001) Stack.dialing (answer (tcpSyn ||| tcpAck))).side.io.pcbKind=.tcp ∧
      (Stored (input .shipped (.host 0x0A000001) Stack.dialing (answer (tcpSyn ||| tcpAck))).side
          (input .shipped (.host 0x0A000001) Stack.dialing (answer (tcpSyn ||| tcpAck))).side.io.pcb ↔
        opensClosingBy .shipped (.host 0x0A000001) Stack.dialing (answer (tcpSyn ||| tcpAck))=false) :=
  ⟨by decide +kernel,(machine_stored_iff .shipped).2 (.host 0x0A000001) Stack.dialing (answer (tcpSyn ||| tcpAck))
    (by decide +kernel)⟩

/-- An answer with a FIN is reported as closing, and the connection stays in SYN-SENT. -/
theorem answer_fin_refused :
    let u := input .shipped (.host 0x0A000001) Stack.dialing (answer (tcpSyn ||| tcpAck ||| tcpFin))
    u.side.io.pcbKind=.tcp ∧ u.side.io.pcb=0 ∧ u.side.tcpIn.io.state=.closeWait ∧ u.side.io.tcpAct.closing=true ∧
      u.side.tcpPcb.io.status=.err ∧ (u.tab.tcb 0).state=.synSent ∧ (u.tab.tcb 0).vars.rcvNxt=0 := by
  decide +kernel

section Owed

variable (cfg : Config) {s : Side} {a : InputArgs} {w : TcpIn.Work} {i p : ℕ}

/-- Behind a segment the reply of the machine is plain, or the SYN,ACK of a simultaneous open. -/
theorem runIn_reply (h : (runIn cfg w).io.res.act.ack) (hr : (runIn cfg w).io.res.act.rst=false) :
    TcpIn.crosses w ∧ (runIn cfg w).io.reply.flags=tcpSyn ||| tcpAck ∨ TcpIn.crosses w=false ∧
        (runIn cfg w).io.reply=⟨(runIn cfg w).io.vars.sndNxt,(runIn cfg w).io.vars.rcvNxt,tcpAck⟩ ∧
        (TcpIn.opensClosing w → (runIn cfg w).io.vars.rcvNxt=w.io.seg.seq+1+w.io.seg.dataLen.setWidth 32+1) := by
  by_cases hs : w.io.state=.synSent
  · have hrn : runIn cfg w=TcpIn.synSent cfg w := if_pos hs
    rw [hrn] at h hr ⊢
    exact (TcpIn.synSent_reply cfg h).imp_right fun ⟨hc,hp,hf⟩ => ⟨hc,hp h hr,hf⟩
  have hp : (TcpIn.replyCore (runIn cfg w).io).Plain := by
    unfold runIn
    rw [if_neg hs]
    split_ifs
    · unfold TcpIn.closed
      split_ifs <;> exact nofun
    · exact TcpIn.segment_plain cfg w
  exact .inr ⟨by simp [TcpIn.crosses,TcpIn.takesSyn,hs],hp h hr,fun hop => by simp [TcpIn.opensClosing,hs] at hop⟩

/-- A segment whose acknowledgment is put off had the machine ask for it; the reply is reported all the same. -/
theorem dTcpSegment_owed (hno : s.io.act.ackOwed=false) (h : (dTcpSegment cfg s a i).io.act.ackOwed) :
    (machineOf cfg s a).io.res.act.ack ∧ (machineOf cfg s a).io.res.act.rst=false ∧
      (dTcpSegment cfg s a i).io.reply=(machineOf cfg s a).io.reply := by
  obtain ⟨w,ring,act,pcbRow,-,he,-,ho,-⟩ := placeText_placed
  rw [dTcpSegment_eq,he] at h ⊢
  have hti : (reported cfg s a i).tcpIn=machineOf cfg s a := rfl
  unfold dTcpReply dTcpStore at h ⊢
  dsimp only at h ⊢
  rw [hti] at h ⊢
  split_ifs at h ⊢ with ha hch hi
  · exact absurd (ho.symm.trans h) (by rw [hno]; decide)
  · exact absurd (ho.symm.trans h) (by rw [hno]; decide)
  all_goals
    have hch' : (machineOf cfg s a).io.res.act.challenge=false ∧ (machineOf cfg s a).io.res.act.rst=false := by
      simpa using hch
    exact ⟨by simpa using ha,hch'.2,rfl⟩

/-- A flush reports the plain acknowledgment of the row it names. -/
theorem ackScan_reply (n k : ℕ) (hb : s.io.status≠.ok) (h : (ackScan cfg s n k).io.status=.ok) :
    (ackScan cfg s n k).io.reply=⟨(s.tcpPcb.tab.tcb (ackScan cfg s n k).io.pcb).vars.sndNxt,
      (s.tcpPcb.tab.tcb (ackScan cfg s n k).io.pcb).vars.rcvNxt,tcpAck⟩ := by
  induction n generalizing s k with
  | zero => exact absurd h hb
  | succ n ih =>
    unfold ackScan at h ⊢
    dsimp only at h ⊢
    by_cases ho : (!(s.pcbRow k).ackOwed)
    · rw [if_pos ho] at h ⊢
      exact ih (k+1) hb h
    rw [if_neg ho] at h ⊢
    by_cases hl : (TcpPcb.load cfg s.tcpPcb k).io.status≠.ok
    · rw [if_pos hl] at h ⊢
      have hrc := ih (s := {s with
        tcpPcb := TcpPcb.load cfg s.tcpPcb k
        pcbRow := Function.update s.pcbRow k {s.pcbRow k with ackOwed := false}}) (k+1) hb h
      rw [TcpPcb.load_tab k] at hrc
      exact hrc
    rw [if_neg hl]
    obtain ⟨io,hio,hst,-⟩|⟨hr,hk,hu⟩ := load_cases cfg (i := k) s.tcpPcb
    · rw [hio] at hl
      exact absurd hst hl
    · rw [load_eq cfg hr hk hu]
      rfl

theorem tcpAckFlush_reply (h : (tcpAckFlush cfg s).io.status=.ok) :
    (tcpAckFlush cfg s).io.reply=⟨(s.tcpPcb.tab.tcb (tcpAckFlush cfg s).io.pcb).vars.sndNxt,
      (s.tcpPcb.tab.tcb (tcpAckFlush cfg s).io.pcb).vars.rcvNxt,tcpAck⟩ := by
  unfold tcpAckFlush at h ⊢
  split_ifs at h ⊢
  exact ackScan_reply cfg _ _ nofun h

/-- A frame's segment asked for an acknowledgment that is put off, for connection `p`. -/
def Deferred (u : Side) (p : ℕ) : Prop := u.io.pcbKind=.tcp ∧ u.io.pcb=p ∧ u.io.act.ackOwed
deriving Decidable

/-- A reply stands for one put off: its control flags are the same, and it acknowledges as much or more. -/
def Upholds (later put : TcpIn.Reply) : Prop := later.flags=put.flags ∧ later.ack-put.ack<0x80000000

/-- Whether the row a segment leaves says what was to be acknowledged, or the one the tables keep has come as far. -/
def restates (w : TcpIn.Work) : Bool :=
  !TcpIn.crosses w && (!TcpIn.opensClosing w || w.io.vars.rcvNxt-(w.io.seg.seq+1+w.io.seg.dataLen.setWidth 32+1)<0x80000000)

/-- The acknowledgment put off is upheld by the flush that finds the connection as it was left, exactly when the row
restates it. -/
theorem flush_upholds_iff (cfg : Config) (e : Env) (s v : Stack) (a : InputArgs) (p : ℕ)
    (hdefer : Deferred (input cfg e s a).side p) (hsame : v.tab.tcb p=(input cfg e s a).tab.tcb p)
    (hok : (tcpAckFlush cfg v.side).io.status=.ok) (hp : (tcpAckFlush cfg v.side).io.pcb=p) :
    Upholds (tcpAckFlush cfg v.side).io.reply (input cfg e s a).side.io.reply ↔ (enteredBy cfg e s a p).any restates=true := by
  obtain ⟨hkind,hpcb,howed⟩ := hdefer
  have hreply := tcpAckFlush_reply cfg hok
  rw [hp] at hreply
  have hpass := input_passage cfg e s a
  change v.side.tcpPcb.tab.tcb p=(input cfg e s a).side.tcpPcb.tab.tcb p at hsame
  unfold enteredBy
  generalize (input cfg e s a).side=u at hpass hkind hpcb howed hsame ⊢
  cases hpass with
  | unnamed u hk ht hr hn => exact absurd hkind hk
  | segment r i hr hi =>
    have hact : (s.facing r).io.act=.none := (arrival_some hr).act
    obtain ⟨hc,-⟩ := segmentOf_some hi
    have hran := dTcpSegment_ran cfg (loadedAt cfg (s.facing r) r.frame r.lip r.rip r.ipVersion i) a i
    obtain rfl : i=p := hran.named.2.symm.trans hpcb
    have hno : (loadedAt cfg (s.facing r) r.frame r.lip r.rip r.ipVersion i).io.act.ackOwed=false := by
      change (s.facing r).io.act.ackOwed=false
      rw [hact]
      rfl
    obtain ⟨hack,hrst,hput⟩ := dTcpSegment_owed cfg hno howed
    have hrow := (dTcpSegment_rows cfg (a := a) hi).2
    rw [machineOf_loadedAt hc] at hack hrst hput
    rw [hr,Option.bind_some,if_pos hi,Option.any_some,hreply,hput]
    have hvars : (enteredAt (s.facing r) a r.frame r.lip r.rip r.ipVersion i).io.vars=
        ((s.facing r).tcpPcb.tab.tcb i).vars := rfl
    generalize enteredAt (s.facing r) a r.frame r.lip r.rip r.ipVersion i=w at *
    unfold Upholds restates
    rw [hsame]
    rcases runIn_reply cfg hack hrst with ⟨hcross,hflags⟩|⟨hcross,hplain,hfin⟩
    · have hne : tcpAck≠tcpSyn ||| tcpAck := by decide
      rw [hcross,hflags]
      exact iff_of_false (fun h => hne h.1) (by simp)
    rw [hcross,hplain]
    cases hop : TcpIn.opensClosing w with
    | false =>
      rw [hop,if_neg nofun] at hrow
      obtain ⟨-,o,ho⟩ := hrow
      rw [ho]
      exact iff_of_true ⟨rfl,by simp⟩ rfl
    | true =>
      -- the tables kept the row they had
      rw [hop,if_pos rfl] at hrow
      obtain ⟨-,o,ho⟩ := hrow
      rw [ho,hfin hop,hvars]
      simp
  | made r l i hr hn hl hp hsyn hi hfree hopen tp ti hready ho hrow hst hti =>
    have hact : (s.facing r).io.act=.none := (arrival_some hr).act
    exact absurd howed (by
      change ¬(s.facing r).io.act.ackOwed=true
      rw [hact]
      decide)

end Owed

/-- The answer to our SYN is acknowledged in the batch, as it was to be. -/
theorem flush_upholds_iff_answer :
    let u := input .shipped (.host 0x0A000001) Stack.dialing (answer (tcpSyn ||| tcpAck))
    Deferred u.side 0 ∧ (tcpAckFlush .shipped u.side).io.status=.ok ∧
      Upholds (tcpAckFlush .shipped u.side).io.reply u.side.io.reply :=
  ⟨by decide +kernel,by decide +kernel,(flush_upholds_iff .shipped (.host 0x0A000001) Stack.dialing
    (input .shipped (.host 0x0A000001) Stack.dialing (answer (tcpSyn ||| tcpAck))) (answer (tcpSyn ||| tcpAck)) 0
    (by decide +kernel) rfl (by decide +kernel) (by decide +kernel)).2 (by decide +kernel)⟩

/-- Both ends send their SYN at once: the SYN,ACK that is put off goes out as a plain acknowledgment. -/
theorem crossing_loses_syn :
    let u := input .shipped (.host 0x0A000001) Stack.dialing (answer tcpSyn)
    Deferred u.side 0 ∧ u.side.io.reply.flags=tcpSyn ||| tcpAck ∧ (tcpAckFlush .shipped u.side).io.status=.ok ∧
      (tcpAckFlush .shipped u.side).io.pcb=0 ∧ (tcpAckFlush .shipped u.side).io.reply.flags=tcpAck := by
  decide +kernel

end IdemIp.Dispatch
