import IdemIp.TcpIn
import IdemIp.SeqSpace
import IdemIp.StepRun

/-!
# What a segment may do to a connection

Most checks keep the acknowledged send space, the receive edge and the recorded
timestamp. The one step of SND.UNA is measured from the old one, so the account
holds across a wrap. What a segment must carry to reset a connection or move its
edge is read off against RFC 5961's rules.
-/

namespace IdemIp.TcpIn

section Acks

variable (cfg : Config) (w : Work) (io : Io)

/-- The acknowledged send space and its report. -/
structure SndCore where
  (sndUna sndNxt iss acked : BitVec 32)
  flag : Bool

/-- The receive edge and the text report. -/
structure TextCore where
  (rcvNxt rcvWnd textSeq : BitVec 32)
  (textOff textLen : BitVec 16)
  (text hold closing : Bool)

/-- The recorded timestamp. -/
structure StampCore where
  (tsRecent tsRecentMs : BitVec 32)

/-- The send part of a block. -/
def sndCore : SndCore :=
  ⟨io.vars.sndUna,io.vars.sndNxt,io.vars.iss,io.res.acked,io.res.act.acked⟩

/-- The text part of a block. -/
def textCore : TextCore :=
  ⟨io.vars.rcvNxt,io.vars.rcvWnd,io.res.textSeq,io.res.textOff,io.res.textLen,io.res.act.text,io.res.act.hold,
    io.res.act.closing⟩

/-- The timestamp part of a block. -/
def stampCore : StampCore := ⟨io.ctl.tsRecent,io.ctl.tsRecentMs⟩

/-- All three parts and the segment itself are kept. -/
structure Quiet (io io' : Io) : Prop where
  seg : io'.seg=io.seg
  snd : sndCore io'=sndCore io
  text : textCore io'=textCore io
  stamp : stampCore io'=stampCore io

theorem Quiet.trans {a b c : Io} (h : Quiet a b) (k : Quiet b c) : Quiet a c :=
  ⟨k.seg.trans h.seg,k.snd.trans h.snd,k.text.trans h.text,k.stamp.trans h.stamp⟩

theorem putAck_quiet : Quiet io (putAck io) := ⟨rfl,rfl,rfl,rfl⟩

theorem putChallenge_quiet : Quiet w.io (putChallenge cfg w).io := by
  unfold putChallenge
  dsimp only
  split_ifs <;> exact ⟨rfl,rfl,rfl,rfl⟩

theorem setSndWnd_quiet : Quiet io (setSndWnd io) := by
  unfold setSndWnd raiseMaxSndWnd
  split_ifs <;> exact ⟨rfl,rfl,rfl,rfl⟩

theorem takeWnd_quiet : Quiet io (takeWnd io) := (setSndWnd_quiet io).trans ⟨rfl,rfl,rfl,rfl⟩

theorem updateWnd_quiet : Quiet io (updateWnd io) := by
  unfold updateWnd
  dsimp only
  split_ifs
  · exact takeWnd_quiet io
  · exact ⟨rfl,rfl,rfl,rfl⟩
  · exact ⟨rfl,rfl,rfl,rfl⟩

theorem ackState_quiet : Quiet io (ackState cfg io).2 := by
  unfold ackState
  cases io.state <;> dsimp only <;> try split_ifs
  all_goals exact ⟨rfl,rfl,rfl,rfl⟩

theorem enterEstablished_quiet : Quiet io (enterEstablished io) := by
  have hk := takeWnd_quiet { io with state := .established }
  exact ⟨hk.seg,hk.snd,hk.text,hk.stamp⟩

theorem checkUrg_quiet : Quiet io (checkUrg io) := by
  unfold checkUrg
  dsimp only
  split_ifs <;> exact ⟨rfl,rfl,rfl,rfl⟩

theorem finState_quiet : Quiet io (finState cfg io) := by
  unfold finState
  cases io.state <;> dsimp only <;> try split_ifs
  all_goals exact ⟨rfl,rfl,rfl,rfl⟩

theorem takeRst_quiet : Quiet io (takeRst io) := by
  unfold takeRst
  cases io.state <;> dsimp only <;> try split_ifs
  all_goals exact ⟨rfl,rfl,rfl,rfl⟩

theorem checkRst_quiet : Quiet w.io (checkRst cfg w).2.io := by
  unfold checkRst
  split_ifs
  · exact ⟨rfl,rfl,rfl,rfl⟩
  · exact ⟨rfl,rfl,rfl,rfl⟩
  · exact putChallenge_quiet cfg w
  · exact takeRst_quiet w.io

theorem checkSyn_quiet : Quiet w.io (checkSyn cfg w).2.io := by
  unfold checkSyn
  split_ifs
  · exact ⟨rfl,rfl,rfl,rfl⟩
  · exact ⟨rfl,rfl,rfl,rfl⟩
  · exact putChallenge_quiet cfg w

theorem takeAck_parts : (takeAck io).seg=io.seg ∧ textCore (takeAck io)=textCore io ∧ stampCore (takeAck io)=stampCore io := by
  unfold takeAck
  split_ifs <;> exact ⟨rfl,rfl,rfl⟩

theorem ackBody_parts : (ackBody cfg io).2.seg=io.seg ∧ textCore (ackBody cfg io).2=textCore io ∧
      stampCore (ackBody cfg io).2=stampCore io := by
  have ha := takeAck_parts io
  have hq := (updateWnd_quiet (takeAck io)).trans (ackState_quiet cfg (updateWnd (takeAck io)))
  exact ⟨hq.seg.trans ha.1,hq.text.trans ha.2.1,hq.stamp.trans ha.2.2⟩

theorem checkAck_parts : (checkAck cfg io).2.seg=io.seg ∧ textCore (checkAck cfg io).2=textCore io ∧
      stampCore (checkAck cfg io).2=stampCore io := by
  unfold checkAck
  split_ifs
  · exact ⟨rfl,rfl,rfl⟩
  · exact ⟨rfl,rfl,rfl⟩
  · have hq := enterEstablished_quiet io
    have hb := ackBody_parts cfg (enterEstablished io)
    exact ⟨hb.1.trans hq.seg,hb.2.1.trans hq.text,hb.2.2.trans hq.stamp⟩
  · exact ⟨rfl,rfl,rfl⟩
  · exact ackBody_parts cfg io

theorem checkText_parts :
    (checkText io).seg=io.seg ∧ sndCore (checkText io)=sndCore io ∧ stampCore (checkText io)=stampCore io := by
  unfold checkText holdText
  dsimp only
  split_ifs <;> exact ⟨rfl,rfl,rfl⟩

theorem checkFin_parts : (checkFin cfg io).seg=io.seg ∧ sndCore (checkFin cfg io)=sndCore io ∧
      stampCore (checkFin cfg io)=stampCore io := by
  have hq := finState_quiet cfg (takeFin io)
  unfold checkFin
  split_ifs
  · exact ⟨rfl,rfl,rfl⟩
  · exact ⟨rfl,rfl,rfl⟩
  · exact ⟨hq.seg,hq.snd,hq.stamp⟩

theorem checkTextFin_parts : (checkTextFin cfg io).seg=io.seg ∧ sndCore (checkTextFin cfg io)=sndCore io ∧
      stampCore (checkTextFin cfg io)=stampCore io := by
  have ht := checkText_parts io
  have hf := checkFin_parts cfg (checkText io)
  unfold checkTextFin
  dsimp only
  split_ifs
  · exact ht
  · exact ⟨hf.1.trans ht.1,hf.2.1.trans ht.2.1,hf.2.2.trans ht.2.2⟩

theorem rejectPlain_parts : textCore (rejectPlain cfg io)=textCore io ∧ stampCore (rejectPlain cfg io)=stampCore io := by
  have hu := checkUrg_quiet io
  have ha := checkAck_parts cfg (checkUrg io)
  unfold rejectPlain
  dsimp only
  split_ifs
  · exact ⟨ha.2.1.trans hu.text,ha.2.2.trans hu.stamp⟩
  · exact ⟨ha.2.1.trans hu.text,ha.2.2.trans hu.stamp⟩
  · exact ⟨hu.text,hu.stamp⟩

theorem judged_parts : (judged cfg w).seg=w.io.seg ∧ (judged cfg w).vars=w.io.vars ∧ (judged cfg w).state=w.io.state ∧
      (judged cfg w).listener=w.io.listener ∧ (judged cfg w).ctl.maxSndWnd=w.io.ctl.maxSndWnd ∧
      sndCore (judged cfg w)=sndCore (opened w) ∧ textCore (judged cfg w)=textCore (opened w) ∧
      (judged cfg w).res.acceptable=verdict w := by
  obtain ⟨ts,ms,h⟩ := judged_frame cfg w
  rw [h]
  exact ⟨rfl,rfl,rfl,rfl,rfl,rfl,rfl,rfl⟩

theorem putPaws_stamped_parts : (putPaws (stamped cfg w).2).vars=w.io.vars ∧ (putPaws (stamped cfg w).2).state=w.io.state ∧
      sndCore (putPaws (stamped cfg w).2)=sndCore (opened w) ∧ textCore (putPaws (stamped cfg w).2)=textCore (opened w) ∧
      stampCore (putPaws (stamped cfg w).2)=stampCore (stamped cfg w).2 := by
  obtain ⟨ts,ms,h⟩ := paws_frame cfg (begun w)
  unfold stamped
  rw [h]
  exact ⟨rfl,rfl,rfl,rfl,rfl⟩

theorem segment_stampCore : stampCore (segment cfg w).io=
      if !w.ctx.ready || w.io.state.rank<3 then stampCore w.io else stampCore (stamped cfg w).2 := by
  have hj : stampCore (judged cfg w)=stampCore (stamped cfg w).2 := rfl
  rw [segment_eq]
  split_ifs
  · rfl
  · exact (putPaws_stamped_parts cfg w).2.2.2.2
  · exact (checkRst_quiet cfg { w with io := judged cfg w }).stamp.trans hj
  · exact (checkSyn_quiet cfg { w with io := judged cfg w }).stamp.trans hj
  · exact (rejectPlain_parts cfg (judged cfg w)).2.trans hj
  · exact (checkAck_parts cfg (judged cfg w)).2.2.trans hj
  · refine (checkTextFin_parts cfg _).2.2.trans ?_
    exact (checkUrg_quiet _).stamp.trans ((checkAck_parts cfg (judged cfg w)).2.2.trans hj)

/-- The text part changes only on the last path of the segment entry, past every guard. -/
theorem segment_textCore : textCore (segment cfg w).io=textCore (opened w) ∨
      verdict w=true ∧ (checkAck cfg (judged cfg w)).1=false ∧
        hasBit w.io.seg.flags tcpRst=false ∧ hasBit w.io.seg.flags tcpSyn=false ∧
        segment cfg w={ w with io := checkTextFin cfg (checkUrg (checkAck cfg (judged cfg w)).2) } := by
  have hj := (judged_parts cfg w).2.2.2.2.2.2.1
  rw [segment_eq]
  split_ifs with h1 h2 h3 h4 h5 h6
  · exact Or.inl rfl
  · exact Or.inl (putPaws_stamped_parts cfg w).2.2.2.1
  · exact Or.inl ((checkRst_quiet cfg { w with io := judged cfg w }).text.trans hj)
  · exact Or.inl ((checkSyn_quiet cfg { w with io := judged cfg w }).text.trans hj)
  · exact Or.inl ((rejectPlain_parts cfg (judged cfg w)).1.trans hj)
  · exact Or.inl ((checkAck_parts cfg (judged cfg w)).2.1.trans hj)
  · exact Or.inr ⟨by simpa using h5,by simpa using h6,by simpa using h3,by simpa using h4,rfl⟩

end Acks

section Guards

open SeqSpace StepRun SndCore BitVec

variable (cfg : Config) (w : Work)

/-- SND.UNA moved by the reported advance, within what was outstanding. -/
structure AckMove (io io' : Io) : Prop where
  sndNxt : io'.vars.sndNxt=io.vars.sndNxt
  iss : io'.vars.iss=io.vars.iss
  moved : dist io.vars.sndUna io'.vars.sndUna=io'.res.acked
  bound : io'.res.acked≤dist io.vars.sndUna io.vars.sndNxt
  /-- The action flag says whether there was one. -/
  flag : io'.res.act.acked=true ↔ io'.res.acked≠0

/-- No advance has been reported yet. -/
def Unacked (io : Io) : Prop := io.res.acked=0 ∧ io.res.act.acked=false

variable {io : Io}

theorem AckMove.of_kept {io' : Io} (h : sndCore io'=sndCore io) (hu : Unacked io) : AckMove io io' where
  sndNxt := congrArg SndCore.sndNxt h
  iss := congrArg SndCore.iss h
  moved := by
    have ha : io'.res.acked=io.res.acked := congrArg acked h
    have hun : io'.vars.sndUna=io.vars.sndUna := congrArg sndUna h
    rw [ha,hu.1,hun,dist_eq_zero]
  bound := by
    have ha : io'.res.acked=io.res.acked := congrArg acked h
    rw [ha,hu.1,le_def]
    exact Nat.zero_le _
  flag := by
    have ha : io'.res.acked=io.res.acked := congrArg acked h
    have hf : io'.res.act.acked=io.res.act.acked := congrArg SndCore.flag h
    rw [hf,ha,hu.1,hu.2]
    simp

variable {b c : Io}

theorem AckMove.between {a d : Io} (h : sndCore b=sndCore a) (m : AckMove b c) (k : sndCore d=sndCore c) : AckMove a d where
  sndNxt := (congrArg SndCore.sndNxt k).trans (m.sndNxt.trans (congrArg SndCore.sndNxt h))
  iss := (congrArg SndCore.iss k).trans (m.iss.trans (congrArg SndCore.iss h))
  moved := by
    have hb : b.vars.sndUna=a.vars.sndUna := congrArg sndUna h
    have hd : d.vars.sndUna=c.vars.sndUna := congrArg sndUna k
    have ha : d.res.acked=c.res.acked := congrArg acked k
    rw [hd,ha,←hb]
    exact m.moved
  bound := by
    have hb : b.vars.sndUna=a.vars.sndUna := congrArg sndUna h
    have hn : b.vars.sndNxt=a.vars.sndNxt := congrArg SndCore.sndNxt h
    have ha : d.res.acked=c.res.acked := congrArg acked k
    rw [ha,←hb,←hn]
    exact m.bound
  flag := by
    have ha : d.res.acked=c.res.acked := congrArg acked k
    have hf : d.res.act.acked=c.res.act.acked := congrArg SndCore.flag k
    rw [hf,ha]
    exact m.flag

theorem AckMove.of_vars {a : Io} (h : b.vars=a.vars) (m : AckMove b c) : AckMove a c :=
  ⟨h ▸ m.sndNxt,h ▸ m.iss,h ▸ m.moved,h ▸ m.bound,m.flag⟩

theorem advanceUna_ackMove (h : ackNew io.seg.ack io.vars.sndUna io.vars.sndNxt) : AckMove io (advanceUna io) := by
  simp only [ackNew,Bool.and_eq_true,bne_iff_ne,decide_eq_true_eq] at h
  exact ⟨rfl,rfl,rfl,h.2,iff_of_true rfl h.1⟩

theorem takeAck_ackMove (hu : Unacked io) : AckMove io (takeAck io) := by
  unfold takeAck
  split_ifs with h
  · exact advanceUna_ackMove h
  · exact .of_kept rfl hu

theorem ackBody_ackMove (hu : Unacked io) : AckMove io (ackBody cfg io).2 :=
  .between rfl (takeAck_ackMove hu) ((updateWnd_quiet _).trans (ackState_quiet cfg _)).snd

theorem checkAck_ackMove (hu : Unacked io) : AckMove io (checkAck cfg io).2 := by
  unfold checkAck
  split_ifs
  · exact .of_kept rfl hu
  · exact .of_kept rfl hu
  · have hk := (enterEstablished_quiet io).snd
    have hv : Unacked (enterEstablished io) :=
      ⟨(congrArg acked hk).trans hu.1,(congrArg flag hk).trans hu.2⟩
    exact .between hk (ackBody_ackMove cfg hv) rfl
  · exact .of_kept rfl hu
  · exact ackBody_ackMove cfg hu

theorem rejectPlain_ackMove (hu : Unacked io) : AckMove io (rejectPlain cfg io) := by
  have hk := (checkUrg_quiet io).snd
  have hv : Unacked (checkUrg io) :=
    ⟨(congrArg acked hk).trans hu.1,(congrArg flag hk).trans hu.2⟩
  unfold rejectPlain
  dsimp only
  split_ifs
  · exact .between hk (checkAck_ackMove cfg hv) rfl
  · exact .between hk (checkAck_ackMove cfg hv) (putAck_quiet _).snd
  · exact .of_kept hk hu

theorem segment_ackMove : AckMove w.io (segment cfg w).io := by
  obtain ⟨-,hv,-,-,-,hs,-,-⟩ := judged_parts cfg w
  have hu : Unacked (judged cfg w) := ⟨congrArg acked hs,congrArg flag hs⟩
  rw [segment_eq]
  split_ifs
  · exact .of_vars (b := opened w) rfl (.of_kept rfl ⟨rfl,rfl⟩)
  · exact .of_vars (b := opened w) rfl (.of_kept (putPaws_stamped_parts cfg w).2.2.1 ⟨rfl,rfl⟩)
  · exact .of_vars hv (.of_kept (checkRst_quiet cfg { w with io := judged cfg w }).snd hu)
  · exact .of_vars hv (.of_kept (checkSyn_quiet cfg { w with io := judged cfg w }).snd hu)
  · exact .of_vars hv (rejectPlain_ackMove cfg hu)
  · exact .of_vars hv (checkAck_ackMove cfg hu)
  · exact .of_vars hv (.between rfl (checkAck_ackMove cfg hu)
      ((checkTextFin_parts cfg _).2.1.trans (checkUrg_quiet _).snd))

variable {ackOk : Bool}

theorem synSentVars_ackMove (hu : Unacked io) (hok : ackOk → ackNew io.seg.ack io.vars.sndUna io.vars.sndNxt) :
    AckMove io (synSentVars io ackOk) := by
  cases ackOk with
  | false => exact .of_kept (setSndWnd_quiet (takeIrs io)).snd hu
  | true => exact .between (b := takeIrs io) rfl (advanceUna_ackMove (hok rfl)) (setSndWnd_quiet _).snd

theorem synSentEnter_snd (io : Io) : sndCore (synSentEnter cfg io)=sndCore io := by
  unfold synSentEnter
  dsimp only
  split_ifs
  · exact (checkTextFin_parts cfg _).2.1.trans (checkUrg_quiet _).snd
  · rfl
  · rfl

theorem synSentAck_new (h : synSentAck io=some ackOk) (hok : ackOk) : ackNew io.seg.ack io.vars.sndUna io.vars.sndNxt := by
  unfold synSentAck at h
  split_ifs at h <;> simp_all

theorem synSentBody_ackMove (hu : Unacked io) (hok : ackOk → ackNew io.seg.ack io.vars.sndUna io.vars.sndNxt) :
    AckMove io (synSentBody cfg io ackOk) := by
  unfold synSentBody synSentRst
  split_ifs
  · exact .of_kept rfl hu
  · exact .of_kept rfl hu
  · exact .between rfl (synSentVars_ackMove hu hok) (synSentEnter_snd cfg _)
  · exact .of_kept rfl hu

theorem synSent_ackMove : AckMove w.io (synSent cfg w).io := by
  have hu : Unacked (begun w) := ⟨rfl,rfl⟩
  unfold synSent
  by_cases hg : (!w.ctx.ready || w.io.state≠.synSent)
  · rw [if_pos hg]
    exact .of_vars (b := opened w) rfl (.of_kept rfl ⟨rfl,rfl⟩)
  rw [if_neg hg]
  cases ha : synSentAck (begun w) with
  | none => split_ifs <;> exact .of_vars (b := begun w) rfl (.of_kept rfl hu)
  | some ackOk => exact .of_vars (b := begun w) rfl (synSentBody_ackMove cfg hu (synSentAck_new ha))

/-- The two entries that move SND.UNA. -/
inductive Entry
  | segment | synSent
deriving DecidableEq

/-- What the caller sets before one of them: the segment, its options and the clock. -/
structure Arrival where
  entry : Entry
  seg : SegArgs
  opts : Opts
  listener : ℕ
  nowMs : BitVec 32

variable (a : Arrival)

/-- The body of one entry. -/
def Entry.call : Entry → Work → Work
  | .segment => TcpIn.segment cfg
  | .synSent => TcpIn.synSent cfg

/-- The operands of an arrival, over the connection image the last call left. -/
def Arrival.into (w : Work) : Work :=
  { w with io := { w.io with seg := a.seg, opts := a.opts, listener := a.listener, nowMs := a.nowMs } }

/-- One arrival on a connection. -/
def arrive : Work := a.entry.call cfg (a.into w)

theorem call_ackMove (e : Entry) (w : Work) : AckMove w.io (e.call cfg w).io := by
  cases e with
  | segment => exact segment_ackMove cfg w
  | synSent => exact synSent_ackMove cfg w

theorem arrive_ackMove : AckMove w.io (arrive cfg w a).io :=
  .of_vars (b := (a.into w).io) rfl (call_ackMove cfg a.entry (a.into w))

/-- Octets and control bits sent and not yet acknowledged. -/
def outstanding : ℕ := (dist w.io.vars.sndUna w.io.vars.sndNxt).toNat

/-- What one arrival reports as newly acknowledged. -/
def ackedBy : ℕ := (arrive cfg w a).io.res.acked.toNat

theorem outstanding_arrive : outstanding (arrive cfg w a)+ackedBy cfg w a=outstanding w := by
  have hm := arrive_ackMove cfg w a
  have hle := hm.bound
  rw [←hm.moved] at hle
  have hs := toNat_dist_of_le hle
  rw [hm.moved] at hs
  unfold outstanding ackedBy
  rw [hm.sndNxt]
  exact hs

theorem run_arrive_kept (as : List Arrival) : (run (arrive cfg) w as).io.vars.sndNxt=w.io.vars.sndNxt ∧
      (run (arrive cfg) w as).io.vars.iss=w.io.vars.iss := by
  induction as generalizing w with
  | nil => exact ⟨rfl,rfl⟩
  | cons a as ih =>
    have hm := arrive_ackMove cfg w a
    have hr := ih (arrive cfg w a)
    exact ⟨hr.1.trans hm.sndNxt,hr.2.trans hm.iss⟩

/-- A run moves SND.UNA forward by the sum of what its arrivals report, never past SND.NXT. -/
theorem dist_sndUna_run (as : List Arrival) : (dist w.io.vars.sndUna (run (arrive cfg) w as).io.vars.sndUna).toNat=
        total (arrive cfg) (ackedBy cfg) w as ∧ total (arrive cfg) (ackedBy cfg) w as≤outstanding w := by
  have hb : outstanding (run (arrive cfg) w as)+total (arrive cfg) (ackedBy cfg) w as=outstanding w :=
    run_balance (fun _ _ (_ : True) => trivial) (fun w a _ => outstanding_arrive cfg w a) trivial
  have hn := (run_arrive_kept cfg w as).1
  have hle : dist (run (arrive cfg) w as).io.vars.sndUna w.io.vars.sndNxt≤ dist w.io.vars.sndUna w.io.vars.sndNxt := by
    rw [le_def]
    unfold outstanding at hb
    rw [hn] at hb
    omega
  have hd := toNat_dist_of_nearer hle
  unfold outstanding at hb ⊢
  rw [hn] at hb
  omega

/-- Acknowledgments over every run: SND.NXT and ISS never move, SND.UNA moves by the reported advance, neither
backward nor past SND.NXT, all modulo 2^32. -/
theorem sndUna_advances_within_sndNxt (cfg : Config) (w : Work) : (∀ e : Entry,
      (e.call cfg w).io.vars.sndNxt=w.io.vars.sndNxt ∧ (e.call cfg w).io.vars.iss=w.io.vars.iss ∧
      (e.call cfg w).io.vars.sndUna-w.io.vars.sndUna=(e.call cfg w).io.res.acked ∧
      (e.call cfg w).io.res.acked≤w.io.vars.sndNxt-w.io.vars.sndUna ∧
      ((e.call cfg w).io.res.acked≠0 ↔ (e.call cfg w).io.res.act.acked=true)) ∧
    ∀ as bs : List Arrival,(run (arrive cfg) w as).io.vars.sndNxt=w.io.vars.sndNxt ∧
      (run (arrive cfg) w as).io.vars.iss=w.io.vars.iss ∧
      (run (arrive cfg) w as).io.vars.sndUna-w.io.vars.sndUna≤ (run (arrive cfg) w (as++bs)).io.vars.sndUna-w.io.vars.sndUna ∧
      (run (arrive cfg) w (as++bs)).io.vars.sndUna-w.io.vars.sndUna≤w.io.vars.sndNxt-w.io.vars.sndUna := by
  refine ⟨fun e => ?_,fun as bs => ?_⟩
  · have hm := call_ackMove cfg e w
    exact ⟨hm.sndNxt,hm.iss,hm.moved,hm.bound,hm.flag.symm⟩
  · have hk := run_arrive_kept cfg w as
    have ha := dist_sndUna_run cfg w as
    have hab := dist_sndUna_run cfg w (as++bs)
    rw [total_append] at hab
    refine ⟨hk.1,hk.2,le_def.mpr ?_,le_def.mpr ?_⟩
    · change (dist _ _).toNat≤(dist _ _).toNat
      omega
    · change (dist _ _).toNat≤outstanding w
      rw [hab.1]
      exact hab.2

end Guards

section Stamps

open SeqSpace StepRun Or

variable (cfg : Config)

theorem putChallenge_conn {w : Work} : (putChallenge cfg w).io.state=w.io.state ∧ (putChallenge cfg w).io.vars=w.io.vars := by
  unfold putChallenge
  dsimp only
  split_ifs <;> exact ⟨rfl,rfl⟩

variable {w : Work}

theorem checkRst_outside (hr : hasBit w.io.seg.flags tcpRst)
    (hne : w.io.seg.seq≠w.io.vars.rcvNxt) (ho : ¬w.io.seg.seq-w.io.vars.rcvNxt<w.io.vars.rcvWnd) :
    checkRst cfg w=(true,w) := by
  have hw : rstInWindow w.io.seg.seq w.io.vars.rcvNxt w.io.vars.rcvWnd=false := by
    unfold rstInWindow tcpInFrom
    simp [ho]
  unfold checkRst
  simp [hr,hne,hw]

theorem checkRst_inexact (hne : w.io.seg.seq≠w.io.vars.rcvNxt) :
    (checkRst cfg w).2.io.state=w.io.state ∧ (checkRst cfg w).2.io.vars=w.io.vars := by
  unfold checkRst
  split_ifs
  · exact ⟨rfl,rfl⟩
  · exact ⟨rfl,rfl⟩
  · exact putChallenge_conn cfg

theorem checkSyn_synchronized (hs : w.io.state.synchronized) :
    (checkSyn cfg w).2.io.state=w.io.state ∧ (checkSyn cfg w).2.io.vars=w.io.vars := by
  unfold checkSyn
  split_ifs with h1 h2
  · exact ⟨rfl,rfl⟩
  · rw [h2.1] at hs
    exact absurd hs (by decide)
  · exact putChallenge_conn cfg

variable {io : Io}

theorem paws_spares_rst {cfg : Config} (h : hasBit io.seg.flags tcpRst) : (paws cfg io).1=false := by
  unfold paws
  split_ifs with h1 h2 <;> simp_all

theorem segment_of_rst (h : hasBit w.io.seg.flags tcpRst) :
    (segment cfg w).io=opened w ∨ segment cfg w=(checkRst cfg { w with io := judged cfg w }).2 := by
  have hp : (stamped cfg w).1=false := paws_spares_rst h
  rw [segment_eq]
  simp only [hp,h,Bool.false_eq_true,if_false,if_true]
  split_ifs
  · exact inl rfl
  · exact inr rfl

theorem segment_rst_inexact (hr : hasBit w.io.seg.flags tcpRst) (hne : w.io.seg.seq≠w.io.vars.rcvNxt) :
    (segment cfg w).io.state=w.io.state ∧ (segment cfg w).io.vars=w.io.vars := by
  obtain ⟨hsg,hv,hs,-⟩ := judged_parts cfg w
  rcases segment_of_rst cfg hr with h|h
  · rw [h]
    exact ⟨rfl,rfl⟩
  have hk := checkRst_inexact cfg (w := { w with io := judged cfg w }) (by rwa [hsg,hv])
  rw [h]
  exact ⟨hk.1.trans hs,hk.2.trans hv⟩

theorem segment_rst_outside (hr : hasBit w.io.seg.flags tcpRst)
    (hne : w.io.seg.seq≠w.io.vars.rcvNxt) (hout : ¬w.io.seg.seq-w.io.vars.rcvNxt<w.io.vars.rcvWnd) :
    (segment cfg w).io.reply=⟨0,0,0⟩ ∧ (segment cfg w).io.res.act=Act.none := by
  obtain ⟨ts,ms,hj⟩ := judged_frame cfg w
  obtain ⟨hs,hv,-⟩ := judged_parts cfg w
  rcases segment_of_rst cfg hr with h|h
  · rw [h]
    exact ⟨rfl,rfl⟩
  have hd := checkRst_outside cfg (w := { w with io := judged cfg w }) (by rwa [hs])
    (by rwa [hs,hv]) (by rwa [hs,hv])
  rw [h,hd]
  rw [hj]
  exact ⟨rfl,rfl⟩

theorem segment_syn_kept (hs : w.io.state.synchronized)
    (hr : hasBit w.io.seg.flags tcpRst=false) (hsy : hasBit w.io.seg.flags tcpSyn) :
    (segment cfg w).io.state=w.io.state ∧ (segment cfg w).io.vars=w.io.vars := by
  obtain ⟨-,hv,hst,-⟩ := judged_parts cfg w
  rw [segment_eq]
  simp only [hr,hsy,Bool.false_eq_true,if_false,if_true]
  split_ifs
  · exact ⟨rfl,rfl⟩
  · have hp := putPaws_stamped_parts cfg w
    exact ⟨hp.2.1,hp.1⟩
  · have hk := checkSyn_synchronized cfg (w := { w with io := judged cfg w }) (by rwa [hst])
    exact ⟨hk.1.trans hst,hk.2.trans hv⟩

/-- A moved receive edge and a text report both need an ACK in RFC 5961's range and Table 6's consent. -/
theorem segment_text_guarded {cfg : Config}
    (h : (segment cfg w).io.vars.rcvNxt≠w.io.vars.rcvNxt ∨ (segment cfg w).io.res.act.text ∨
      (segment cfg w).io.res.act.hold) : hasBit w.io.seg.flags tcpAck ∧
      ackInRange w.io.seg.ack w.io.vars.sndUna w.io.vars.sndNxt w.io.ctl.maxSndWnd ∧ verdict w := by
  rcases segment_textCore cfg w with hk|⟨hv,ha,-⟩
  · have hn : (segment cfg w).io.vars.rcvNxt=w.io.vars.rcvNxt := congrArg TextCore.rcvNxt hk
    have ht : (segment cfg w).io.res.act.text=false := congrArg TextCore.text hk
    have hh : (segment cfg w).io.res.act.hold=false := congrArg TextCore.hold hk
    rw [hn,ht,hh] at h
    simp at h
  · obtain ⟨hs,hvr,-,-,hm,-⟩ := judged_parts cfg w
    unfold checkAck at ha
    rw [hs,hvr,hm] at ha
    split_ifs at ha <;> simp_all

/-- RFC 5961 over every segment: only a RST at RCV.NXT closes a connection, one outside the window is dropped in
silence, a SYN changes nothing, and text needs an ACK in range on an acceptable segment. -/
theorem segment_resists_blind_attack (cfg : Config) (w : Work) (hs : w.io.state.synchronized=true) :
    (hasBit w.io.seg.flags tcpRst=true → (segment cfg w).io.state=.closed → w.io.seg.seq=w.io.vars.rcvNxt) ∧
    (hasBit w.io.seg.flags tcpRst=true → w.io.seg.seq≠w.io.vars.rcvNxt → ¬w.io.seg.seq-w.io.vars.rcvNxt<w.io.vars.rcvWnd →
        (segment cfg w).io.reply=⟨0,0,0⟩ ∧ (segment cfg w).io.res.act=Act.none ∧
        (segment cfg w).io.state=w.io.state ∧ (segment cfg w).io.vars=w.io.vars) ∧
    (hasBit w.io.seg.flags tcpSyn=true → hasBit w.io.seg.flags tcpRst=false →
      (segment cfg w).io.state=w.io.state ∧ (segment cfg w).io.vars=w.io.vars) ∧
    ((segment cfg w).io.vars.rcvNxt≠w.io.vars.rcvNxt ∨ (segment cfg w).io.res.act.text=true ∨
        (segment cfg w).io.res.act.hold=true → hasBit w.io.seg.flags tcpAck=true ∧
      w.io.seg.ack-(w.io.vars.sndUna-w.io.ctl.maxSndWnd)≤ w.io.vars.sndNxt-(w.io.vars.sndUna-w.io.ctl.maxSndWnd) ∧
      segAcceptable w.io.seg.seq w.io.seg.len w.io.vars.rcvNxt w.io.vars.rcvWnd=true) := by
  refine ⟨fun hr hc => ?_,fun hr hne hout => ?_,fun hsyn hr => segment_syn_kept cfg hs hr hsyn,fun h => ?_⟩
  · by_contra hne
    rw [(segment_rst_inexact cfg hr hne).1] at hc
    rw [hc] at hs
    exact absurd hs (by decide)
  · have hq := segment_rst_outside cfg hr hne hout
    have hk := segment_rst_inexact cfg hr hne
    exact ⟨hq.1,hq.2,hk.1,hk.2⟩
  · obtain ⟨ha,hrange,hv⟩ := segment_text_guarded h
    exact ⟨ha,of_decide_eq_true hrange,hv⟩

/-- An established connection with RCV.NXT 1000, a window of 100 and TS.Recent 50, under a segment. -/
def sampleConn (seg : SegArgs) (opts : Opts) : Work where
  io :=
    { seg := seg
      vars := { TcpVars.zero with sndUna := 200, sndNxt := 210, iss := 1, rcvNxt := 1000, rcvWnd := 100 }
      ctl := { TcpPcbCtl.zero with
        maxSndWnd := 500, tsRecent := 50, tsRecentMs := 3, lastAckSent := 1000, flags := ctlTsOk }
      state := .established
      listener := noneIndex
      nowMs := 9
      status := .err
      opts := opts
      reply := ⟨0,0,0⟩
      res := ⟨Act.none,0,0,0,0,false⟩ }
  ctx := ⟨true,0,0⟩

/-- Octets of data at RCV.NXT with a good ACK, which the guards let through. -/
theorem segment_resists_blind_attack_sample : (sampleConn ⟨1000,205,64,8,8,0,tcpAck⟩ .zero).io.state.synchronized=true ∧
      (segment .shipped (sampleConn ⟨1000,205,64,8,8,0,tcpAck⟩ .zero)).io.vars.rcvNxt=1008 ∧
      segAcceptable 1000 8 1000 100=true :=
  ⟨by decide,by decide,((segment_resists_blind_attack .shipped (sampleConn ⟨1000,205,64,8,8,0,tcpAck⟩ .zero) (by decide)).2.2.2
      (inl (by decide))).2.2⟩

/-- The rules under which a segment replaces TS.Recent: RFC 7323's R3, and the stale one of sec 5.5. -/
def RecordsStamp (io : Io) : Prop :=
  io.opts.tsPresent ∧ ((tsLt io.opts.tsval io.ctl.tsRecent=false ∧ io.ctl.lastAckSent-io.seg.seq<0x80000000) ∨
      (tsLt io.opts.tsval io.ctl.tsRecent ∧ hasBit io.seg.flags tcpRst=false ∧
        cfg.tcpTsRecentMaxMs < io.nowMs-io.ctl.tsRecentMs))

theorem paws_stampCore (io : Io) (hon : hasBit io.ctl.flags ctlTsOk) :
    (RecordsStamp cfg io → stampCore (paws cfg io).2=⟨io.opts.tsval,io.nowMs⟩) ∧
      (¬RecordsStamp cfg io → stampCore (paws cfg io).2=stampCore io) := by
  unfold paws RecordsStamp tcpInFrom
  rw [hon]
  split_ifs with h1 h2 h3 h4
  · simp_all
  · simp_all [BitVec.not_lt]
  · simp_all [BitVec.not_le,stampCore,saveTs]
  · simp_all [stampCore,saveTs]
  · simp_all

/-- From SYN-RECEIVED on a segment replaces TS.Recent exactly when R3 or the staleness rule says so, acceptable or not. -/
theorem segment_records_stamp_iff (cfg : Config) (w : Work) (hready : w.ctx.ready=true)
    (hs : 3≤w.io.state.rank) (hon : hasBit w.io.ctl.flags ctlTsOk=true) :
    (RecordsStamp cfg w.io → (segment cfg w).io.ctl.tsRecent=w.io.opts.tsval ∧ (segment cfg w).io.ctl.tsRecentMs=w.io.nowMs) ∧
    (¬RecordsStamp cfg w.io → (segment cfg w).io.ctl.tsRecent=w.io.ctl.tsRecent ∧
      (segment cfg w).io.ctl.tsRecentMs=w.io.ctl.tsRecentMs) := by
  have hdoor : ¬(!w.ctx.ready || w.io.state.rank<3)=true := by
    simp only [hready,Bool.not_true,Bool.false_or,decide_eq_true_eq]
    omega
  have hseg := segment_stampCore cfg w
  rw [if_neg hdoor] at hseg
  have hp := paws_stampCore cfg (begun w) hon
  refine ⟨fun h => ?_,fun h => ?_⟩
  · have he := hseg.trans (hp.1 h)
    exact ⟨congrArg StampCore.tsRecent he,congrArg StampCore.tsRecentMs he⟩
  · have he := hseg.trans (hp.2 h)
    exact ⟨congrArg StampCore.tsRecent he,congrArg StampCore.tsRecentMs he⟩

/-- A segment ahead of Last.ACK.sent whose timestamp is in order leaves TS.Recent alone. -/
theorem segment_records_stamp_sample :
    (segment .shipped (sampleConn ⟨2000,205,64,8,8,0,tcpAck⟩ { Opts.zero with tsval := 60, tsPresent := true })
      ).io.ctl.tsRecent=50 :=
  ((segment_records_stamp_iff .shipped (sampleConn ⟨2000,205,64,8,8,0,tcpAck⟩ { Opts.zero with tsval := 60, tsPresent := true })
    (by decide) (by decide) (by decide)).2 (by unfold RecordsStamp; decide)).1

/-- An old segment left of the window moves TS.Recent to 5000, and the next genuine one at RCV.NXT is then rejected. -/
theorem segment_old_seq_moves_tsRecent :
    let spoofed := sampleConn ⟨500,205,64,8,8,0,tcpAck⟩ { Opts.zero with tsval := 5000, tsPresent := true }
    let genuine : Arrival :=
      ⟨.segment,⟨1000,205,64,8,8,0,tcpAck⟩,{ Opts.zero with tsval := 60, tsPresent := true },noneIndex,10⟩
    spoofed.io.state.synchronized=true ∧ hasBit spoofed.io.ctl.flags ctlTsOk=true ∧
      segAcceptable spoofed.io.seg.seq spoofed.io.seg.len spoofed.io.vars.rcvNxt spoofed.io.vars.rcvWnd=false ∧
      (segment .shipped spoofed).io.ctl.tsRecent≠spoofed.io.ctl.tsRecent ∧
      (arrive .shipped spoofed genuine).io.res.act.text=true ∧
      (arrive .shipped (segment .shipped spoofed) genuine).io.res.act.paws=true := by
  decide

end Stamps

end IdemIp.TcpIn
