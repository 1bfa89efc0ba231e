import IdemIp.DispatchStore
import Mathlib.Tactic.Ring

/-!
# The stream a connection delivers

How far RCV.NXT of one connection moves with each call, and what is reported with
it. The ranges reported tile the sequence space, and the right edge of the window
moves whenever a FIN or a held segment is taken.
-/

namespace IdemIp.Dispatch

open StepRun BitVec TcpIn

section Held

variable (cfg : Config) (s : Side) (q : ℕ)

/-- The first held segment of a connection. -/
def firstHeld : TcpPcb.Oos := s.tcpPcb.tab.oos (s.tcpPcb.tab.tcb q).ooseq

/-- Octets of it RCV.NXT has passed. -/
def heldSkip : BitVec 32 := (s.tcpPcb.tab.tcb q).vars.rcvNxt-(firstHeld s q).seq

/-- Whether a re-delivery has something new. -/
def heldNew : Bool := heldReached cfg s q && heldSkip s q<(firstHeld s q).len.setWidth 32

def heldLen : BitVec 32 := (firstHeld s q).len.setWidth 32-heldSkip s q

theorem heldLen_toNat (h : heldNew cfg s q) :
    (heldLen s q).toNat+(heldSkip s q).toNat=(firstHeld s q).len.toNat ∧ 0<(heldLen s q).toNat ∧
      ((heldLen s q).setWidth 16).setWidth 32=heldLen s q := by
  simp only [heldNew,Bool.and_eq_true,decide_eq_true_eq] at h
  have hlt := lt_def.1 h.2
  rw [toNat_setWidth_of_le (by decide)] at hlt
  have hsub : (heldLen s q).toNat=(firstHeld s q).len.toNat-(heldSkip s q).toNat := by
    unfold heldLen
    rw [BitVec.toNat_sub_of_le (BitVec.le_of_lt h.2),BitVec.toNat_setWidth_of_le (by decide)]
  refine ⟨by omega,by omega,eq_of_toNat_eq ?_⟩
  rw [toNat_setWidth_of_le (by decide),toNat_setWidth]
  omega

/-- A row with its held segments and RCV.NXT moved. -/
def movedRow (x : TcpPcb.Tcb) (o : ℕ) (n : BitVec 32) : TcpPcb.Tcb :=
  {x with ooseq := o,vars := {x.vars with rcvNxt := x.vars.rcvNxt+n}}

theorem movedRow_zero (x : TcpPcb.Tcb) (o : ℕ) : movedRow x o 0={x with ooseq := o} := by
  unfold movedRow
  rw [add_zero]

/-- What a re-delivery leaves behind. -/
structure Redelivered (u : Side) : Prop where
  closing : u.io.tcpAct.closing=false
  /-- Text is reported exactly when some of it is new. -/
  deliver : u.io.act.deliver=heldNew cfg s q
  /-- Then the report names the connection, and what is new begins at RCV.NXT. -/
  text : heldNew cfg s q → (u.io.pcbKind=.tcp ∧ u.io.pcb=q) ∧ u.io.textSeq=(s.tcpPcb.tab.tcb q).vars.rcvNxt ∧
    u.io.textLen=(heldLen s q).setWidth 16 ∧
    u.io.textOff=((firstHeld s q).offset.setWidth 32+heldSkip s q).setWidth 16
  /-- RCV.NXT moves over what is new, and of no other connection. -/
  row : ∀ k,∃ o,u.tcpPcb.tab.tcb k=movedRow (s.tcpPcb.tab.tcb k) o (if k=q ∧ heldNew cfg s q then heldLen s q else 0)

theorem oosFree_rows (w : TcpPcb.Work) (j k : ℕ) : ∃ o,(TcpPcb.oosFree cfg w j).tab.tcb k={w.tab.tcb k with ooseq := o} := by
  rcases TcpPcb.oosFree_cases with ht|⟨-,-,-,t,ht,he⟩
  · exact ⟨(w.tab.tcb k).ooseq,by rw [ht]⟩
  · obtain ⟨o,ho⟩ := (TcpPcb.oosUnlink_relinked ht).tcb k
    exact ⟨o,by rw [he]; exact ho⟩

theorem store_held {w : TcpPcb.Work} (ht : w.tab=s.tcpPcb.tab) (hr : w.ready) (hi : q < cfg.tcpPcbs)
    (hu : (s.tcpPcb.tab.tcb q).inUse) (hv : w.io.vars=(s.tcpPcb.tab.tcb q).vars ∧ w.io.ctl=(s.tcpPcb.tab.tcb q).ctl ∧
      w.io.state=(s.tcpPcb.tab.tcb q).state) (n : BitVec 32) (k : ℕ) :
    (TcpPcb.store cfg (w.image {w.io.vars with rcvNxt := (s.tcpPcb.tab.tcb q).vars.rcvNxt+n} w.io.ctl w.io.state)
      q).tab.tcb k=movedRow (s.tcpPcb.tab.tcb k) (s.tcpPcb.tab.tcb k).ooseq (if k=q then n else 0) := by
  have hok : TcpPcb.transitionOk (w.tab.tcb q).state w.io.state := by
    rw [ht,hv.2.2]
    cases (s.tcpPcb.tab.tcb q).state <;> decide
  rw [TcpPcb.store_eq cfg (w := w.image {w.io.vars with rcvNxt := (s.tcpPcb.tab.tcb q).vars.rcvNxt+n} w.io.ctl w.io.state) hr hi
    (by show (w.tab.tcb q).inUse=true; rw [ht]; exact hu) hok]
  by_cases hk : k=q
  · subst hk
    simp [TcpPcb.Work.done,TcpPcb.Work.image,movedRow,ht,hv.1,hv.2.1,hv.2.2]
  · simp [TcpPcb.Work.done,TcpPcb.Work.image,hk,movedRow,ht]

theorem tcpDeliver_redelivered : Redelivered cfg s q (tcpDeliver cfg s q) := by
  have hrt := tcpDeliver_route cfg s q
  have hs : ∀ u : Side,u.io.act=.none → u.io.tcpAct=TcpIn.Act.none → u.tcpPcb.tab=s.tcpPcb.tab →
      heldReached cfg s q=false → Redelivered cfg s q u := by
    intro u hac hc ht hg
    have hn : heldNew cfg s q=false := by rw [heldNew,hg,Bool.false_and]
    refine ⟨by rw [hc]; rfl,by rw [hac,hn]; rfl,fun h => ?_,fun k => ⟨(s.tcpPcb.tab.tcb k).ooseq,?_⟩⟩
    · rw [hn] at h
      cases h
    · rw [if_neg (by simp [hn]),movedRow_zero,ht]
  generalize tcpDeliver cfg s q=u at hrt ⊢
  cases hrt with
  | refused io hac hg hc hb => exact hs _ hac hc rfl hg
  | idle w io ht hr hac hg hc hb => exact hs _ hac hc ht hg
  | held w ht hr hi hu hv hj hju ha hg =>
    by_cases hl : heldSkip s q<(firstHeld s q).len.setWidth 32
    · have hn : heldNew cfg s q := by simp [heldNew,hg,hl]
      have hln := (heldLen_toNat cfg s q hn).2.2
      have hd : deliverHeld cfg (deliverSide cfg s w (deliverIo s q)) q (firstHeld s q) (s.tcpPcb.tab.tcb q).vars.rcvNxt=_ :=
        if_pos hl
      rw [show s.tcpPcb.tab.oos (s.tcpPcb.tab.tcb q).ooseq=firstHeld s q from rfl,hd]
      refine ⟨rfl,hn.symm,fun _ => ⟨⟨rfl,rfl⟩,rfl,rfl,rfl⟩,fun k => ?_⟩
      obtain ⟨o,ho⟩ := oosFree_rows cfg (TcpPcb.store cfg (w.image {w.io.vars with
        rcvNxt := (s.tcpPcb.tab.tcb q).vars.rcvNxt+((heldLen s q).setWidth 16).setWidth 32} w.io.ctl w.io.state) q)
        (s.tcpPcb.tab.tcb q).ooseq k
      refine ⟨o,ho.trans ?_⟩
      rw [store_held cfg s q ht hr hi hu hv,hln]
      by_cases hk : k=q
      · simp [hk,hn,movedRow]
      · simp [hk,movedRow]
    · have hn : heldNew cfg s q=false := by simp [heldNew,hl]
      have hd : deliverHeld cfg (deliverSide cfg s w (deliverIo s q)) q (firstHeld s q) (s.tcpPcb.tab.tcb q).vars.rcvNxt=_ :=
        if_neg hl
      rw [show s.tcpPcb.tab.oos (s.tcpPcb.tab.tcb q).ooseq=firstHeld s q from rfl,hd]
      refine ⟨rfl,hn.symm,fun h => ?_,fun k => ?_⟩
      · rw [hn] at h
        cases h
      · obtain ⟨o,ho⟩ := oosFree_rows cfg w (s.tcpPcb.tab.tcb q).ooseq k
        rw [if_neg (by simp [hn])]
        refine ⟨o,ho.trans ?_⟩
        rw [movedRow_zero,ht]

end Held

section Machine

variable (cfg : Config)

/-- Outside SYN-SENT the entry a state selects treats the receive side as the segment entry does. -/
theorem runIn_received {w : TcpIn.Work} (h : w.io.state≠.synSent) : TcpIn.Received cfg w (runIn cfg w).io := by
  unfold runIn
  rw [if_neg h]
  split_ifs with hc
  · -- CLOSED reads nothing of the text, and no segment reaches it
    have hr : reachesText cfg w=false := by simp [reachesText,hc,TcpState.rank]
    refine received_of_core cfg w ?_
    have hcr : textCore (closed w).io=textCore (opened w) := by
      unfold closed
      split_ifs <;> rfl
    rw [hcr,segFin,textReport,segTakes,segHolds,hr]
    rfl
  · exact segment_received cfg w

theorem runIn_not_synSent {w : TcpIn.Work} (h : w.io.state≠.synSent) : (runIn cfg w).io.state≠.synSent := by
  unfold runIn
  rw [if_neg h]
  split_ifs with hc
  · rw [closed_state]
    exact h
  intro hs
  have ht := segment_transition cfg w
  rw [hs] at ht
  by_cases hl : w.io.state=.listen
  · have he : (segment cfg w).io.state=.listen := by
      unfold TcpIn.segment
      rw [if_pos (by simp [hl,TcpState.rank])]
      exact hl
    rw [he] at hs
    cases hs
  · revert ht hc hl h
    cases w.io.state <;> decide

end Machine

/-- Calls without any of the application's: frames, re-deliveries and owed acknowledgments. -/
abbrev Traffic := Event fun _ => False

/-- Whether a report delivers text of a connection. -/
def deliversFor (u : Side) (p : ℕ) : Bool := u.io.act.deliver && u.io.pcbKind==.tcp && u.io.pcb==p

/-- Whether it says a FIN of the connection was consumed. -/
def closesFor (u : Side) (p : ℕ) : Bool := u.io.tcpAct.closing && u.io.pcbKind==.tcp && u.io.pcb==p

section Call

variable (cfg : Config) (s : Stack) (p : ℕ)

/-- Octets of text a call takes off a segment that arrives. -/
def directText : Traffic → BitVec 32
  | .input e a => ((enteredBy cfg e s a p).map (TcpIn.segTaken cfg)).getD 0
  | _ => 0

/-- Octets it takes off a held segment. -/
def heldText : Traffic → BitVec 32
  | .deliver q => if q=p ∧ heldNew cfg s.side q then heldLen s.side q else 0
  | _ => 0

/-- Whether it consumes a FIN. -/
def finTaken : Traffic → Bool
  | .input e a => ((enteredBy cfg e s a p).map (TcpIn.segFin cfg)).getD false
  | _ => false

def textTaken : Traffic → Bool
  | .input e a => ((enteredBy cfg e s a p).map (TcpIn.segTakes cfg)).getD false
  | .deliver q => q==p && heldNew cfg s.side q
  | _ => false

/-- The text reported lies in data that begins at a number and has a length. -/
def Inside (io : Io) (first : BitVec 32) (len : BitVec 16) : Prop :=
  (io.textSeq-first).toNat+io.textLen.toNat≤len.toNat

/-- The data a call's text is taken from: the segment that arrived, or the one held first. -/
def InsideData (io : Io) : Traffic → Prop
  | .input e a => ∃ w,enteredBy cfg e s a p=some w ∧ Inside io w.io.seg.seq w.io.seg.dataLen
  | .deliver _ => Inside io (firstHeld s.side p).seq (firstHeld s.side p).len
  | _ => False

/-- What one call does to the receive side of a connection. -/
structure Moved (ev : Traffic) (u : Stack) : Prop where
  /-- The connection stays in use, and out of SYN-SENT. -/
  used : (u.tab.tcb p).inUse ∧ (u.tab.tcb p).state≠.synSent
  rcvNxt : (u.tab.tcb p).vars.rcvNxt=(s.tab.tcb p).vars.rcvNxt+(directText cfg s p ev+heldText cfg s p ev)+
    if finTaken cfg s p ev then 1 else 0
  /-- RCV.WND shrinks by text of arriving segments alone. -/
  rcvWnd : (u.tab.tcb p).vars.rcvWnd=(s.tab.tcb p).vars.rcvWnd-directText cfg s p ev
  /-- Which is never more than there is of it. -/
  window : directText cfg s p ev≤(s.tab.tcb p).vars.rcvWnd
  /-- The report says whether a FIN was consumed. -/
  closing : closesFor u.side p=finTaken cfg s p ev
  deliver : deliversFor u.side p=textTaken cfg s p ev
  /-- Text begins at RCV.NXT, is as long as RCV.NXT moved over it, and lies in the segment's data. -/
  text : textTaken cfg s p ev → u.side.io.textSeq=(s.tab.tcb p).vars.rcvNxt ∧
    u.side.io.textLen.setWidth 32=directText cfg s p ev+heldText cfg s p ev ∧ InsideData cfg s p u.side.io ev
  silent : textTaken cfg s p ev=false → directText cfg s p ev+heldText cfg s p ev=0

variable {cfg s p}

theorem Moved.idle {ev : Traffic} {u : Stack} (hu : (s.tab.tcb p).inUse) (hs : (s.tab.tcb p).state≠.synSent)
    (hd : directText cfg s p ev=0) (hh : heldText cfg s p ev=0) (hf : finTaken cfg s p ev=false)
    (ht : textTaken cfg s p ev=false) (hr : ∃ o,u.tab.tcb p={s.tab.tcb p with ooseq := o})
    (hc : closesFor u.side p=false) (hv : deliversFor u.side p=false) : Moved cfg s p ev u := by
  obtain ⟨o,ho⟩ := hr
  refine ⟨?_,?_,?_,?_,hc.trans hf.symm,hv.trans ht.symm,fun h => ?_,fun _ => ?_⟩
  · rw [ho]
    exact ⟨hu,hs⟩
  · rw [ho,hd,hh,hf]
    simp
  · rw [ho,hd]
    simp
  · rw [hd]
    exact le_def.2 (Nat.zero_le _)
  · rw [ht] at h
    cases h
  · rw [hd,hh,add_zero]

theorem input_moved {e : Env} {a : InputArgs} (hu : (s.tab.tcb p).inUse) (hs : (s.tab.tcb p).state≠.synSent) :
    Moved cfg s p (.input e a) (input cfg e s a) := by
  rcases input_row cfg e s a p hu with ⟨w,hw,ho⟩|⟨hw,hn,hrw⟩
  · obtain ⟨hv,-,hstate,-⟩ := enteredBy_row hw
    have hst : w.io.state≠.synSent := by rw [hstate]; exact hs
    have hop : opensClosing w=false := by simp [opensClosing,hst]
    have hr := runIn_received cfg hst
    have hd : directText cfg s p (.input e a)=segTaken cfg w := by simp [directText,hw]
    have hf : finTaken cfg s p (.input e a)=segFin cfg w := by simp [finTaken,hw]
    have htk : textTaken cfg s p (.input e a)=segTakes cfg w := by simp [textTaken,hw]
    have hh : heldText cfg s p (.input e a)=0 := rfl
    obtain ⟨o,hrw⟩ := ho.row
    rw [hop,if_neg (by decide)] at hrw
    have hrow' : (input cfg e s a).tab.tcb p=_ := hrw
    refine ⟨?_,?_,?_,?_,?_,?_,fun ht => ?_,fun ht => ?_⟩
    · rw [hrow']
      exact ⟨hu,runIn_not_synSent cfg hst⟩
    · rw [hrow',hd,hh,hf,add_zero,←hv]
      exact hr.rcvNxt
    · rw [hrow',hd,←hv]
      exact hr.rcvWnd
    · rw [hd,←hv]
      exact segTaken_le cfg w
    · rw [hf,←hr.flags.2.2,←ho.closing]
      simp [closesFor,ho.named.1,ho.named.2]
    · rw [htk,←hr.flags.1,←ho.deliver]
      simp [deliversFor,ho.named.1,ho.named.2]
    · rw [htk] at ht
      obtain ⟨hsq,hoff,hl⟩ := hr.text ht
      obtain ⟨hwnd,hdt⟩ := segTakes_bounds cfg w ht
      have hlt : (segTaken cfg w).toNat<2^16 := by
        omega
      have hlen' : (input cfg e s a).side.io.textLen.toNat=(segTaken cfg w).toNat := by
        rw [ho.text.2.2,hl,toNat_setWidth,Nat.mod_eq_of_lt hlt]
      have hseq' : (input cfg e s a).side.io.textSeq=w.io.vars.rcvNxt := ho.text.1.trans hsq
      refine ⟨by rw [hseq',hv],?_,w,hw,?_⟩
      · rw [hd,hh,add_zero]
        apply eq_of_toNat_eq
        rw [toNat_setWidth_of_le (by decide),hlen']
      · unfold Inside
        rw [hseq',hlen']
        exact hdt
    · rw [htk] at ht
      rw [hd,hh,add_zero,segTaken_eq,ht]
      rfl
  · refine .idle hu hs ?_ rfl ?_ ?_ hrw ?_ ?_
    · simp [directText,hw]
    · simp [finTaken,hw]
    · simp [textTaken,hw]
    · apply Bool.eq_false_iff.2
      intro h
      simp only [closesFor,Bool.and_eq_true,beq_iff_eq] at h
      exact hn ⟨h.1.2,h.2⟩
    · apply Bool.eq_false_iff.2
      intro h
      simp only [deliversFor,Bool.and_eq_true,beq_iff_eq] at h
      exact hn ⟨h.1.2,h.2⟩

theorem deliver_moved (q : ℕ) (hu : (s.tab.tcb p).inUse) (hs : (s.tab.tcb p).state≠.synSent) :
    Moved cfg s p (.deliver q) (s.onSide fun t => tcpDeliver cfg t q) := by
  have hr := tcpDeliver_redelivered cfg s.side q
  obtain ⟨o,hrw⟩ := hr.row p
  have hc : closesFor (s.onSide fun t => tcpDeliver cfg t q).side p=false := by
    unfold closesFor
    rw [show (s.onSide fun t => tcpDeliver cfg t q).side.io.tcpAct.closing=false from hr.closing]
    rfl
  by_cases hqp : q=p ∧ heldNew cfg s.side q
  · obtain ⟨rfl,hn⟩ := hqp
    obtain ⟨hnm,hsq,hln,-⟩ := hr.text hn
    obtain ⟨hsum,-,hb⟩ := heldLen_toNat cfg s.side q hn
    have hh : heldText cfg s q (.deliver q)=heldLen s.side q := by simp [heldText,hn]
    have hrow' : (s.onSide fun t => tcpDeliver cfg t q).tab.tcb q=movedRow (s.tab.tcb q) o (heldLen s.side q) := by
      refine Eq.trans hrw ?_
      rw [if_pos ⟨rfl,hn⟩]
      rfl
    refine ⟨?_,?_,?_,le_def.2 (Nat.zero_le _),hc,?_,fun _ => ⟨hsq,?_,?_⟩,fun h => ?_⟩
    · rw [hrow']
      exact ⟨hu,hs⟩
    · rw [hrow',hh]
      simp [movedRow,directText,finTaken]
    · rw [hrow']
      simp [movedRow,directText]
    · have hd : (s.onSide fun t => tcpDeliver cfg t q).side.io.act.deliver := hr.deliver.trans hn
      have hk : (s.onSide fun t => tcpDeliver cfg t q).side.io.pcbKind=.tcp := hnm.1
      have hp : (s.onSide fun t => tcpDeliver cfg t q).side.io.pcb=q := hnm.2
      simp [deliversFor,textTaken,hd,hk,hp,hn]
    · rw [hh]
      show (tcpDeliver cfg s.side q).io.textLen.setWidth 32=0+_
      rw [hln,hb,zero_add]
    · show ((tcpDeliver cfg s.side q).io.textSeq-(firstHeld s.side q).seq).toNat+
        (tcpDeliver cfg s.side q).io.textLen.toNat≤_
      have hl : (tcpDeliver cfg s.side q).io.textLen.toNat=(heldLen s.side q).toNat := by
        have hnt := congrArg BitVec.toNat hb
        rw [toNat_setWidth_of_le (by decide)] at hnt
        rw [hln]
        exact hnt
      rw [hl,hsq]
      show (heldSkip s.side q).toNat+_≤_
      omega
    · simp [textTaken,hn] at h
  · refine .idle hu hs rfl ?_ rfl ?_ ⟨o,?_⟩ hc ?_
    · simp only [heldText,if_neg hqp]
    · apply Bool.eq_false_iff.2
      intro h
      simp only [textTaken,Bool.and_eq_true,beq_iff_eq] at h
      exact hqp h
    · refine Eq.trans hrw ?_
      rw [if_neg fun h => hqp ⟨h.1.symm,h.2⟩,movedRow_zero]
      rfl
    · apply Bool.eq_false_iff.2
      intro h
      simp only [deliversFor,Bool.and_eq_true,beq_iff_eq] at h
      have hn : heldNew cfg s.side q := hr.deliver.symm.trans h.1.1
      exact hqp ⟨(hr.text hn).1.2.symm.trans h.2,hn⟩

theorem step_moved (ev : Traffic) (hu : (s.tab.tcb p).inUse) (hs : (s.tab.tcb p).state≠.synSent) :
    Moved cfg s p ev (step cfg s ev) := by
  cases ev with
  | input e a => exact input_moved hu hs
  | deliver q => exact deliver_moved q hu hs
  | ack =>
    obtain ⟨tp,io,pcbRow,he,ht,-,hd,hc⟩ := tcpAckFlush_frame cfg s.side
    have hsd : (step cfg s (Event.ack : Traffic)).side={s.side with tcpPcb := tp,io := io,pcbRow := pcbRow} := he
    refine .idle hu hs rfl rfl rfl rfl ⟨(s.tab.tcb p).ooseq,?_⟩ ?_ ?_
    · show (step cfg s (Event.ack : Traffic)).side.tcpPcb.tab.tcb p=_
      rw [hsd,ht]
      rfl
    · unfold closesFor
      rw [hsd,hc]
      rfl
    · unfold deliversFor
      rw [hsd,hd]
      rfl
  | app c h => exact h.elim

end Call

section Stream

variable (cfg : Config) (p : ℕ) (s : Stack) (ev : Traffic)

/-- A connection in use, out of SYN-SENT. -/
def Opened : Prop := (s.tab.tcb p).inUse ∧ (s.tab.tcb p).state≠.synSent

theorem step_opened (h : Opened p s) : Opened p (step cfg s ev) :=
  (step_moved ev h.1 h.2).used

theorem run_opened {s : Stack} (as : List Traffic) (h : Opened p s) : Opened p (run (step cfg) s as) :=
  run_always (step_opened cfg p) h

theorem opened_of_synchronized {s : Stack} (hu : (s.tab.tcb p).inUse)
    (hs : (s.tab.tcb p).state.synchronized) : Opened p s := by
  refine ⟨hu,fun h => ?_⟩
  rw [h] at hs
  cases hs

/-- Sequence numbers a call reports as consumed: text, and one for a FIN. -/
def consumed : ℕ :=
  (if deliversFor (step cfg s ev).side p then (step cfg s ev).side.io.textLen.toNat else 0)+
    if closesFor (step cfg s ev).side p then 1 else 0

theorem step_rcvNxt (h : Opened p s) :
    ((step cfg s ev).tab.tcb p).vars.rcvNxt=(s.tab.tcb p).vars.rcvNxt+(consumed cfg p s ev : BitVec 32) := by
  have hm : Moved cfg s p ev (step cfg s ev) := step_moved ev h.1 h.2
  have hf : ((if finTaken cfg s p ev then 1 else 0 : ℕ) : BitVec 32)=if finTaken cfg s p ev then 1 else 0 := by
    split <;> rfl
  rw [hm.rcvNxt,consumed,hm.deliver,hm.closing,Nat.cast_add,hf,add_assoc]
  cases ht : textTaken cfg s p ev with
  | true => rw [if_pos rfl,natCast_eq_ofNat,ofNat_toNat,(hm.text ht).2.1]
  | false =>
    rw [hm.silent ht]
    simp

/-- From a synchronized connection on, each report of text begins where the last one ended. -/
theorem run_stream (s : Stack) (hu : (s.tab.tcb p).inUse=true) (hs : (s.tab.tcb p).state.synchronized=true)
    (as : List Traffic) (ev : Traffic) :
    let t := run (step cfg) s as
    let u := step cfg t ev
    closesFor u.side p=finTaken cfg t p ev ∧
    (deliversFor u.side p=true → u.side.io.textSeq=(t.tab.tcb p).vars.rcvNxt ∧ InsideData cfg t p u.side.io ev ∧
      (u.tab.tcb p).vars.rcvNxt=u.side.io.textSeq+u.side.io.textLen.setWidth 32+(if closesFor u.side p then 1 else 0) ∧
      u.side.io.textSeq=(s.tab.tcb p).vars.rcvNxt+(total (step cfg) (consumed cfg p) s as : BitVec 32)) ∧
    (deliversFor u.side p=false → (u.tab.tcb p).vars.rcvNxt=(t.tab.tcb p).vars.rcvNxt+if closesFor u.side p then 1 else 0) := by
  intro t u
  have h0 : Opened p s := opened_of_synchronized p hu hs
  have ht : Opened p t := run_opened cfg p as h0
  have hm : Moved cfg t p ev u := step_moved ev ht.1 ht.2
  have hdrift : (t.tab.tcb p).vars.rcvNxt=(s.tab.tcb p).vars.rcvNxt+(total (step cfg) (consumed cfg p) s as : BitVec 32) :=
    run_drift (step_opened cfg p) (fun x => (x.tab.tcb p).vars.rcvNxt) (step_rcvNxt cfg p) h0 as
  refine ⟨hm.closing,fun hd => ?_,fun hd => ?_⟩
  · rw [hm.deliver] at hd
    obtain ⟨hseq,hlen,hin⟩ := hm.text hd
    refine ⟨hseq,hin,?_,hseq.trans hdrift⟩
    rw [hm.rcvNxt,hm.closing,hseq,hlen]
  · rw [hm.deliver] at hd
    rw [hm.rcvNxt,hm.silent hd,hm.closing,add_zero]

/-- RCV.NXT stays in the window as it was, and the right edge of the window stays where it is. -/
def EdgeKept (x y : TcpPcb.Tcb) : Prop :=
  y.vars.rcvNxt-x.vars.rcvNxt≤x.vars.rcvWnd ∧ y.vars.rcvNxt+y.vars.rcvWnd=x.vars.rcvNxt+x.vars.rcvWnd

/-- Whether a call consumes a FIN, or takes a held segment. -/
def edgeMoves : Bool := finTaken cfg s p ev || heldText cfg s p ev != 0

theorem step_edgeKept_iff (h : Opened p s) :
    EdgeKept (s.tab.tcb p) ((step cfg s ev).tab.tcb p) ↔ edgeMoves cfg p s ev=false := by
  have hm : Moved cfg s p ev (step cfg s ev) := step_moved ev h.1 h.2
  have he : finTaken cfg s p ev → heldText cfg s p ev=0 := by
    cases ev with
    | input e a => exact fun _ => rfl
    | deliver q => exact nofun
    | ack => exact fun _ => rfl
    | app c h => exact h.elim
  have hed : ((step cfg s ev).tab.tcb p).vars.rcvNxt+((step cfg s ev).tab.tcb p).vars.rcvWnd=
      (s.tab.tcb p).vars.rcvNxt+(s.tab.tcb p).vars.rcvWnd+ (heldText cfg s p ev+if finTaken cfg s p ev then 1 else 0) := by
    rw [hm.rcvNxt,hm.rcvWnd]
    ring
  unfold EdgeKept edgeMoves
  rw [hed,hm.rcvNxt]
  cases hf : finTaken cfg s p ev with
  | true =>
    rw [he hf]
    simp
  | false =>
    by_cases hh : heldText cfg s p ev=0
    · rw [hh]
      simpa using hm.window
    · refine iff_of_false (fun hk => hh ?_) (by simpa using hh)
      simpa using hk.2

/-- From a synchronized connection on, the edge is kept exactly when no call consumes a FIN or takes a held segment. -/
theorem run_edge_iff (s : Stack) (hu : (s.tab.tcb p).inUse=true) (hs : (s.tab.tcb p).state.synchronized=true)
    (as : List Traffic) : Along (step cfg) (fun t ev => EdgeKept (t.tab.tcb p) ((step cfg t ev).tab.tcb p)) s as ↔
      Along (step cfg) (fun t ev => edgeMoves cfg p t ev=false) s as :=
  along_congr (step_opened cfg p) (step_edgeKept_iff cfg p) (opened_of_synchronized p hu hs)

end Stream

/-- RCV.NXT 500 and a window of 1000, with nothing outstanding. -/
def talkingVars : TcpVars :=
  {TcpVars.zero with
    iss := 100
    sndUna := 101
    sndNxt := 101
    sndWnd := 1000
    rcvNxt := 500
    rcvWnd := 1000}

/-- The connection of row 0 once it is open, and in the state it goes on to. -/
def Stack.talking (st : TcpState) : Stack :=
  run (step .shipped) Stack.dialing [(.app (.store 0 talkingVars .zero .established) trivial : Event fun _ => True),
      .app (.store 0 talkingVars .zero st) trivial]

/-- A segment its peer sends, in a frame of ring 0. -/
def said (seq : BitVec 32) (flags : BitVec 8) (data : List (BitVec 8)) (d : ℕ) : Traffic :=
  .input (.host 0x0A000001) (Sent.args ⟨0x0A000002,0x0A000001,80,1000,seq,101,flags,data⟩ d 0)

/-- Three octets close the gap before three that are held, which are then re-delivered. -/
theorem run_stream_gap :
    let s := Stack.talking .established
    let t := run (step .shipped) s [said 503 tcpAck [4,5,6] 0,said 500 tcpAck [1,2,3] 1]
    let u := step .shipped t (.deliver 0 : Traffic)
    ((s.tab.tcb 0).inUse=true ∧ (s.tab.tcb 0).state.synchronized=true ∧ deliversFor u.side 0=true) ∧
      u.side.io.textSeq=(t.tab.tcb 0).vars.rcvNxt ∧ (t.tab.tcb 0).vars.rcvNxt=503 ∧ u.side.io.textLen=3 :=
  ⟨by decide +kernel,((run_stream .shipped 0 (Stack.talking .established) (by decide +kernel) (by decide +kernel)
    [said 503 tcpAck [4,5,6] 0,said 500 tcpAck [1,2,3] 1] (.deliver 0)).2.1 (by decide +kernel)).1,by decide +kernel,
    by decide +kernel⟩

/-- A segment in order keeps the edge, and the condition decides it. -/
theorem run_edge_iff_plain :
    ((Stack.talking .established).tab.tcb 0).inUse=true ∧ ((Stack.talking .established).tab.tcb 0).state.synchronized=true ∧
      (Along (step .shipped) (fun t ev => EdgeKept (t.tab.tcb 0) ((step .shipped t ev).tab.tcb 0))
          (Stack.talking .established) [said 500 tcpAck [1,2,3] 0] ↔
        Along (step .shipped) (fun t ev => edgeMoves .shipped 0 t ev=false) (Stack.talking .established)
          [said 500 tcpAck [1,2,3] 0]) :=
  ⟨by decide +kernel,by decide +kernel,run_edge_iff .shipped 0 (Stack.talking .established) (by decide +kernel)
    (by decide +kernel) [said 500 tcpAck [1,2,3] 0]⟩

/-- A held segment of three octets moves the edge right by three when it is re-delivered, and a FIN by one. -/
theorem held_and_fin_move_edge :
    let s := Stack.talking .established
    let t := run (step .shipped) s [said 503 tcpAck [4,5,6] 0,said 500 tcpAck [1,2,3] 1]
    let u := step .shipped t (.deliver 0 : Traffic)
    let v := step .shipped u (said 506 (tcpAck ||| tcpFin) [] 2)
    ((s.tab.tcb 0).vars.rcvNxt+(s.tab.tcb 0).vars.rcvWnd=1500 ∧ (t.tab.tcb 0).vars.rcvNxt+(t.tab.tcb 0).vars.rcvWnd=1500) ∧
      (u.tab.tcb 0).vars.rcvNxt+(u.tab.tcb 0).vars.rcvWnd=1503 ∧ ¬EdgeKept (t.tab.tcb 0) (u.tab.tcb 0) ∧
      (v.tab.tcb 0).vars.rcvNxt+(v.tab.tcb 0).vars.rcvWnd=1504 ∧ ¬EdgeKept (u.tab.tcb 0) (v.tab.tcb 0) := by
  refine ⟨by decide +kernel,by decide +kernel,fun h => ?_,by decide +kernel,fun h => ?_⟩
  · exact absurd h.2 (by decide +kernel)
  · exact absurd h.2 (by decide +kernel)

section Machine

variable (cfg : Config)

/-- States behind the FIN, and the one they end in. -/
def ended (st : TcpState) : Bool := TcpIn.finSeen st || st==.closed

theorem ended_of_finSeen {st : TcpState} (h : finSeen st) : ended st := by
  rw [ended,h,Bool.true_or]

/-- The machine reports a FIN only on the way to a state behind it. -/
theorem runIn_finSeen {w : TcpIn.Work} (h : (runIn cfg w).io.res.act.closing) : finSeen (runIn cfg w).io.state := by
  unfold runIn at h ⊢
  by_cases hs : w.io.state=.synSent
  · rw [if_pos hs] at h ⊢
    exact synSent_finSeen cfg w h
  rw [if_neg hs] at h ⊢
  by_cases hc : w.io.state=.closed
  · rw [if_pos hc] at h
    have hno : (closed w).io.res.act.closing=false := by
      unfold closed
      split_ifs <;> rfl
    rw [hno] at h
    cases h
  · rw [if_neg hc] at h ⊢
    exact segment_finSeen cfg w h

theorem runIn_ended {w : TcpIn.Work} (h : ended w.io.state) : ended (runIn cfg w).io.state := by
  unfold runIn
  have hs : w.io.state≠.synSent := by
    rintro he
    rw [he] at h
    cases h
  rw [if_neg hs]
  by_cases hc : w.io.state=.closed
  · rw [if_pos hc,closed_state]
    exact h
  rw [if_neg hc]
  have ht := segment_transition cfg w
  revert ht h hc
  generalize (segment cfg w).io.state=t
  cases w.io.state <;> cases t <;> decide

theorem received_ended {w : TcpIn.Work} (h : ended w.io.state) : segTaken cfg w=0 ∧ segFin cfg w=refins cfg w := by
  by_cases hc : w.io.state=.closed
  · have hr : reachesText cfg w=false := by simp [reachesText,hc,TcpState.rank]
    simp [segTaken,segFin,refins,hr]
  · have hf : finSeen w.io.state := by simpa [ended,hc] using h
    exact ⟨segTaken_finSeen cfg hf,segFin_finSeen cfg hf⟩

end Machine

section Fin

variable (cfg : Config) (p : ℕ) (s : Stack) (ev : Traffic)

/-- Whether a call brings CLOSE-WAIT another FIN at RCV.NXT. -/
def refinBy : Traffic → Bool
  | .input e a => ((enteredBy cfg e s a p).map (TcpIn.refins cfg)).getD false
  | _ => false

/-- A call leaves RCV.NXT and reports no FIN. -/
def Silent (s u : Stack) : Prop :=
  (u.tab.tcb p).vars.rcvNxt=(s.tab.tcb p).vars.rcvNxt ∧ closesFor u.side p=false

/-- A row in use after a call is that row before it, moved or as the machine left it. -/
theorem step_state (hu : (s.tab.tcb p).inUse) : ((step cfg s ev).tab.tcb p).inUse ∧
      (((step cfg s ev).tab.tcb p).state=(s.tab.tcb p).state ∨ ∃ e a w,ev=.input e a ∧ enteredBy cfg e s a p=some w ∧
          ((step cfg s ev).tab.tcb p).state=(runIn cfg w).io.state) := by
  cases ev with
  | input e a =>
    rcases input_row cfg e s a p hu with ⟨w,hw,ho⟩|⟨-,-,o,hr⟩
    · obtain ⟨o,hr⟩ := ho.row
      have hrow' : (step cfg s (.input e a : Traffic)).tab.tcb p=_ := hr
      rw [hrow']
      cases opensClosing w with
      | true => exact ⟨hu,.inl rfl⟩
      | false => exact ⟨hu,.inr ⟨e,a,w,rfl,hw,rfl⟩⟩
    · have hrow' : (step cfg s (.input e a : Traffic)).tab.tcb p=_ := hr
      rw [hrow']
      exact ⟨hu,.inl rfl⟩
  | deliver q =>
    obtain ⟨o,hr⟩ := (tcpDeliver_redelivered cfg s.side q).row p
    have hrow' : (step cfg s (.deliver q : Traffic)).tab.tcb p=_ := hr
    rw [hrow']
    exact ⟨hu,.inl rfl⟩
  | ack =>
    obtain ⟨tp,io,pcbRow,he,ht,-⟩ := tcpAckFlush_frame cfg s.side
    have hr : (step cfg s (.ack : Traffic)).tab.tcb p=s.tab.tcb p := by
      show (tcpAckFlush cfg s.side).tcpPcb.tab.tcb p=_
      rw [he,ht]
      rfl
    rw [hr]
    exact ⟨hu,.inl rfl⟩
  | app c h => exact h.elim

theorem step_finSeen (hu : (s.tab.tcb p).inUse) (hc : closesFor (step cfg s ev).side p)
    (hn : ((step cfg s ev).tab.tcb p).vars.rcvNxt≠(s.tab.tcb p).vars.rcvNxt) : finSeen ((step cfg s ev).tab.tcb p).state := by
  simp only [closesFor,Bool.and_eq_true,beq_iff_eq] at hc
  obtain ⟨⟨hcl,hk⟩,hp⟩ := hc
  cases ev with
  | input e a =>
    rcases input_row cfg e s a p hu with ⟨w,hw,ho⟩|⟨-,hnm,-⟩
    · obtain ⟨o,hr⟩ := ho.row
      have hrow' : (step cfg s (.input e a : Traffic)).tab.tcb p=_ := hr
      rw [hrow'] at hn ⊢
      cases hop : opensClosing w with
      | true =>
        rw [hop] at hn
        exact absurd rfl hn
      | false => exact runIn_finSeen cfg (ho.closing.symm.trans hcl)
    · exact absurd ⟨hk,hp⟩ hnm
  | deliver q =>
    have hno := (tcpDeliver_redelivered cfg s.side q).closing
    exact absurd (hno.symm.trans hcl) (by decide)
  | ack =>
    obtain ⟨tp,io,pcbRow,he,-,-,-,hno⟩ := tcpAckFlush_frame cfg s.side
    have hs : (step cfg s (.ack : Traffic)).side=_ := he
    rw [hs] at hcl
    exact absurd (hno.symm.trans hcl) (by decide)
  | app c h => exact h.elim

theorem input_silent_iff {e : Env} {a : InputArgs} (hu : (s.tab.tcb p).inUse) (he : ended (s.tab.tcb p).state) :
    Silent p s (step cfg s (.input e a : Traffic)) ↔ refinBy cfg p s (.input e a)=false := by
  have hs : (s.tab.tcb p).state≠.synSent := by
    intro h
    rw [h] at he
    cases he
  have hm : Moved cfg s p (.input e a) (step cfg s (.input e a : Traffic)) := step_moved _ hu hs
  have hb : directText cfg s p (.input e a)=0 ∧ finTaken cfg s p (.input e a)=refinBy cfg p s (.input e a) := by
    cases hw : enteredBy cfg e s a p with
    | none => simp [directText,finTaken,refinBy,hw]
    | some w =>
      obtain ⟨-,-,hst,-⟩ := enteredBy_row hw
      simpa [directText,finTaken,refinBy,hw] using received_ended cfg (by rw [hst]; exact he)
  have hn := hm.rcvNxt
  rw [hb.1,hb.2,show heldText cfg s p (.input e a)=0 from rfl] at hn
  unfold Silent
  rw [hm.closing,hb.2,hn]
  cases refinBy cfg p s (.input e a) <;> simp

/-- A connection in use behind the FIN. -/
def Ended : Prop := (s.tab.tcb p).inUse ∧ ended (s.tab.tcb p).state=true

theorem step_ended (h : Ended p s) : Ended p (step cfg s ev) := by
  obtain ⟨hu,hs⟩ := step_state cfg p s ev h.1
  refine ⟨hu,?_⟩
  rcases hs with hst|⟨e,a,w,-,hw,hst⟩
  · rw [hst]
    exact h.2
  rw [hst]
  obtain ⟨-,-,hw',-⟩ := enteredBy_row hw
  exact runIn_ended cfg (by rw [hw']; exact h.2)

theorem refinBy_finSeen {s : Stack} {ev : Traffic} (h : refinBy cfg p s ev) :
    finSeen (s.tab.tcb p).state ∧ ∃ e a,ev=.input e a := by
  cases ev with
  | input e a =>
    cases hw : enteredBy cfg e s a p with
    | none => simp [refinBy,hw] at h
    | some w =>
      have hr : refins cfg w := by simpa [refinBy,hw] using h
      simp only [refins,Bool.and_eq_true,beq_iff_eq] at hr
      obtain ⟨-,-,hs,-⟩ := enteredBy_row hw
      rw [←hs,hr.1.1.1]
      exact ⟨rfl,e,a,rfl⟩
  | deliver q => cases h
  | ack => cases h
  | app c hc => exact hc.elim

/-- Behind a FIN that moves RCV.NXT every segment is silent exactly when none brings CLOSE-WAIT another FIN. -/
theorem run_fin_once_iff (s : Stack) (hu : (s.tab.tcb p).inUse=true) (as : List Traffic) :
    let t := fun n => run (step cfg) s (as.take n)
    (∀ n ev,as[n]?=some ev → closesFor (t (n+1)).side p=true → ((t (n+1)).tab.tcb p).vars.rcvNxt≠((t n).tab.tcb p).vars.rcvNxt →
      finSeen ((t (n+1)).tab.tcb p).state=true) ∧
    ((∀ n m e a,n ≤ m → as[m]?=some (.input e a) → finSeen ((t n).tab.tcb p).state=true → Silent p (t m) (t (m+1))) ↔
      Along (step cfg) (fun x ev => refinBy cfg p x ev=false) s as) := by
  intro t
  have hused : ∀ n,((t n).tab.tcb p).inUse=true := fun n =>
    run_always (fun x ev hx => (step_state cfg p x ev hx).1) hu
  refine ⟨fun n ev hev hc hn => ?_,fun h => ?_,fun h n m e a hnm hev hseen => ?_⟩
  · have hsucc : t (n+1)=step cfg (t n) ev := run_take_succ (step cfg) s hev
    rw [hsucc] at hc hn ⊢
    exact step_finSeen cfg p (t n) ev (hused n) hc hn
  · refine (along_iff_get (step cfg) _ s as).2 fun n ev hev => ?_
    by_contra hre
    have hre' : refinBy cfg p (t n) ev=true := by simpa using hre
    obtain ⟨hseen,e,a,rfl⟩ := refinBy_finSeen cfg p hre'
    have hsil := h n n e a le_rfl hev hseen
    rw [show t (n+1)=step cfg (t n) (.input e a) from run_take_succ (step cfg) s hev] at hsil
    exact hre ((input_silent_iff cfg p (t n) (hused n) (ended_of_finSeen hseen)).1 hsil)
  · have hend : Ended p (t m) :=
      later_invariant (fun x ev hx _ => step_ended cfg p x ev hx) h hnm ⟨hused n,ended_of_finSeen hseen⟩
    rw [show t (m+1)=step cfg (t m) (.input e a) from run_take_succ (step cfg) s hev]
    exact (input_silent_iff cfg p (t m) hend.1 hend.2).2 ((along_iff_get (step cfg) _ s as).1 h m _ hev)

end Fin

/-- An open connection, a FIN and text behind it, which is passed over in silence. -/
theorem run_fin_once_iff_single :
    let s := Stack.talking .established
    let as := [said 500 (tcpAck ||| tcpFin) [] 0,said 501 tcpAck [7] 1]
    let t := fun n => run (step .shipped) s (as.take n)
    (s.tab.tcb 0).inUse=true ∧ finSeen ((t 1).tab.tcb 0).state=true ∧
      Along (step .shipped) (fun x ev => refinBy .shipped 0 x ev=false) s as ∧ ((∀ n m e a,n ≤ m → as[m]?=some (.input e a) → finSeen ((t n).tab.tcb 0).state=true →
          Silent 0 (t m) (t (m+1))) ↔
        Along (step .shipped) (fun x ev => refinBy .shipped 0 x ev=false) s as) :=
  ⟨by decide +kernel,by decide +kernel,by decide +kernel,
    (run_fin_once_iff .shipped 0 (Stack.talking .established) (by decide +kernel) [_,_]).2⟩

/-- A FIN is consumed and reported, and so is the next one behind it. -/
theorem second_fin_consumed :
    let s := Stack.talking .established
    let t := step .shipped s (said 500 (tcpAck ||| tcpFin) [] 0)
    let u := step .shipped t (said 501 (tcpAck ||| tcpFin) [] 1)
    (closesFor t.side 0=true ∧ (t.tab.tcb 0).state=.closeWait ∧ (t.tab.tcb 0).vars.rcvNxt=501) ∧
      closesFor u.side 0=true ∧ (u.tab.tcb 0).state=.closeWait ∧ (u.tab.tcb 0).vars.rcvNxt=502 := by
  decide +kernel

end IdemIp.Dispatch
