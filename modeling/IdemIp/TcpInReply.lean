import IdemIp.TcpInText

/-!
# What the segment machine answers

An acknowledgment a synchronized connection asks for has the plain form; SYN-SENT
answers a simultaneous open with a SYN,ACK. Whether a segment is answered at all is
read off the connection in front of the call: `answers` names each test that ends in
a reply, and the machine sets ACK or RST, or takes text, exactly if one of them does.
-/

namespace IdemIp.TcpIn

section Replies

variable (cfg : Config) {io : Io} {w : Work}

/-- The reply with what it is formed from, and whether text is taken. -/
structure ReplyCore where
  reply : Reply
  (sndNxt rcvNxt : BitVec 32)
  (ack rst text : Bool)

def replyCore (io : Io) : ReplyCore :=
  ⟨io.reply,io.vars.sndNxt,io.vars.rcvNxt,io.res.act.ack,io.res.act.rst,io.res.act.text⟩

/-- An acknowledgment that is asked for has the plain form. -/
def ReplyCore.Plain (c : ReplyCore) : Prop :=
  c.ack → c.rst=false → c.reply=⟨c.sndNxt,c.rcvNxt,tcpAck⟩

theorem putAck_plain {io : Io} : (replyCore (putAck io)).Plain := fun _ _ => rfl

theorem checkUrg_replyCore : replyCore (checkUrg io)=replyCore io := by
  unfold checkUrg
  dsimp only
  split_ifs <;> rfl

theorem takeWnd_replyCore : replyCore (takeWnd io)=replyCore io := by
  unfold takeWnd setSndWnd raiseMaxSndWnd
  dsimp only
  split_ifs <;> rfl

theorem finState_replyCore : replyCore (finState cfg io)=replyCore io := by
  unfold finState
  cases io.state <;> dsimp only <;> try split_ifs
  all_goals rfl

/-- An acknowledgment and the window with it leave the reply. -/
theorem settled_replyCore : replyCore (updateWnd (takeAck io))=replyCore io := by
  have ht : replyCore (takeAck io)=replyCore io := by
    unfold takeAck
    split_ifs <;> rfl
  unfold updateWnd
  dsimp only
  split_ifs
  · exact takeWnd_replyCore.trans ht
  · exact ht
  · exact ht

theorem enterEstablished_replyCore : replyCore (enterEstablished io)=replyCore io :=
  @takeWnd_replyCore {io with state := .established}

theorem takeRst_replyCore : replyCore (takeRst io)=replyCore io := by
  unfold takeRst
  cases io.state <;> dsimp only <;> try split_ifs
  all_goals rfl

theorem ackBody_plain (h : (replyCore io).Plain) : (replyCore (ackBody cfg io).2).Plain := by
  have hw : replyCore (updateWnd (takeAck io))=replyCore io := settled_replyCore
  unfold ackBody
  generalize updateWnd (takeAck io)=u at hw
  rw [←hw] at h
  unfold ackState
  cases u.state <;> dsimp only <;> try split_ifs
  case timeWait => exact putAck_plain
  all_goals exact h

theorem checkAck_plain (h : (replyCore io).Plain) : (replyCore (checkAck cfg io).2).Plain := by
  unfold checkAck
  split_ifs
  · exact h
  · exact putAck_plain
  · refine ackBody_plain cfg ?_
    rw [enterEstablished_replyCore]
    exact h
  · exact nofun
  · exact ackBody_plain cfg h

/-- Each part of the text and FIN checks that moves RCV.NXT acknowledges it. -/
theorem checkTextFin_plain (h : (replyCore io).Plain) : (replyCore (checkTextFin cfg io)).Plain := by
  have ht : (replyCore (checkText io)).Plain := by
    unfold checkText
    dsimp only
    split_ifs
    · exact h
    · exact h
    · exact putAck_plain
    · exact putAck_plain
  unfold checkTextFin checkFin
  dsimp only
  split_ifs
  · exact ht
  · exact ht
  · exact ht
  · rw [finState_replyCore]
    exact putAck_plain

theorem putChallenge_plain (h : (replyCore w.io).Plain) : (replyCore (putChallenge cfg w).io).Plain := by
  unfold putChallenge
  dsimp only
  split_ifs
  · exact h
  · exact putAck_plain
  · exact h
  · exact putAck_plain

theorem checkRst_plain (h : (replyCore w.io).Plain) : (replyCore (checkRst cfg w).2.io).Plain := by
  unfold checkRst
  split_ifs
  · exact h
  · exact h
  · exact putChallenge_plain cfg h
  · rw [takeRst_replyCore]
    exact h

theorem checkSyn_plain (h : (replyCore w.io).Plain) : (replyCore (checkSyn cfg w).2.io).Plain := by
  unfold checkSyn
  split_ifs
  · exact h
  · exact h
  · exact putChallenge_plain cfg h

theorem rejectPlain_plain (h : (replyCore io).Plain) : (replyCore (rejectPlain cfg io)).Plain := by
  rw [←checkUrg_replyCore] at h
  unfold rejectPlain
  dsimp only
  split_ifs
  · exact checkAck_plain cfg h
  · exact putAck_plain
  · exact putAck_plain

/-- A segment for a synchronized connection is acknowledged in the plain form. -/
theorem segment_plain (w : Work) : (replyCore (segment cfg w).io).Plain := by
  have hj : (replyCore (judged cfg w)).Plain := by
    obtain ⟨ts,ms,h⟩ := judged_frame cfg w
    rw [h]
    exact nofun
  rw [segment_eq]
  split_ifs
  · exact nofun
  · exact putAck_plain
  · exact checkRst_plain cfg hj
  · exact checkSyn_plain cfg hj
  · exact rejectPlain_plain cfg hj
  · exact checkAck_plain cfg hj
  · refine checkTextFin_plain cfg ?_
    rw [checkUrg_replyCore]
    exact checkAck_plain cfg hj

/-- Whether a segment for SYN-SENT is a SYN that does not answer ours: both ends opened at once. -/
def crosses (w : Work) : Bool :=
  (takesSyn w).any fun ackOk => (if ackOk then w.io.seg.ack else w.io.vars.sndUna)-w.io.vars.iss == 0

/-- SYN-SENT answers a simultaneous open with a SYN,ACK and all else in the plain form; a FIN taken with the SYN is
acknowledged. -/
theorem synSent_reply (h : (synSent cfg w).io.res.act.ack) : crosses w ∧ (synSent cfg w).io.reply.flags=tcpSyn ||| tcpAck ∨
      crosses w=false ∧ (replyCore (synSent cfg w).io).Plain ∧ (opensClosing w → (synSent cfg w).io.vars.rcvNxt=
          w.io.seg.seq+1+w.io.seg.dataLen.setWidth 32+1) := by
  rcases synSent_cases cfg with ⟨ackOk,ht,he⟩|⟨-,-,hno,-⟩
  · obtain ⟨-,hs,hop⟩ := takesSyn_some ht
    obtain ⟨hsg,hn,hw,hi,hun,hh,-⟩ := synSentVars_parts (begun w) ackOk
    have hcr : crosses w=((synSentVars (begun w) ackOk).vars.sndUna-(synSentVars (begun w) ackOk).vars.iss==0) := by
      rw [crosses,ht,hun,hi]
      rfl
    rw [hcr,he,hop]
    generalize synSentVars (begun w) ackOk=io at *
    have hen : (replyCore (entered io)).Plain := putAck_plain
    rcases synSentEnter_cases cfg with ⟨hu,he⟩|⟨hu,⟨-,he⟩|⟨hg,he⟩⟩
    · rw [he]
      exact .inl ⟨beq_iff_eq.2 hu,rfl⟩
    · rw [he]
      have hq := checkUrg_quiet (entered io)
      refine .inr ⟨beq_false_of_ne hu,checkTextFin_plain cfg (by rw [checkUrg_replyCore]; exact hen),fun hop => ?_⟩
      have hseg' : (checkUrg (entered io)).seg=w.io.seg := hq.seg.trans hsg
      have hnxt' : (checkUrg (entered io)).vars.rcvNxt=w.io.seg.seq+1 := (congrArg TextCore.rcvNxt hq.text).trans hn
      have hwnd' : (checkUrg (entered io)).vars.rcvWnd=w.io.vars.rcvWnd :=
        (congrArg TextCore.rcvWnd hq.text).trans hw
      have hf : takesFin (checkUrg (entered io)) := by
        rw [takesFin_syn (by rw [hseg']; exact hs) (by rw [hseg']; exact hnxt') (checkUrg_state _),hseg',hwnd']
        exact (Bool.and_eq_true _ _ ▸ hop).1
      have hc := checkTextFin_textCore (checkUrg (entered io)) cfg ((congrArg TextCore.hold hq.text).trans hh)
      rw [if_pos hf] at hc
      refine (congrArg TextCore.rcvNxt hc).trans ?_
      simp only [takesFin,Bool.and_eq_true,beq_iff_eq] at hf
      dsimp only
      rw [hf.2,textSeq,hseg',hs]
      rfl
    · rw [he]
      refine .inr ⟨beq_false_of_ne hu,hen,fun hop => ?_⟩
      -- a FIN does not go by
      simp only [Bool.and_eq_true] at hop
      exact absurd (.inr (by rw [hsg]; exact hasBit_or hop.1.1)) hg
  · rw [hno] at h
    cases h

end Replies

section Answers

variable (cfg : Config) (w : Work)

/-- A segment is to be sent back, or text was taken. -/
def speaks (io : Io) : Bool := io.res.act.ack || io.res.act.rst || io.res.act.text

/-- RFC 5961 sec 7's throttle has room for another challenge. -/
def roomy : Bool :=
  (if cfg.tcpChallengeWindowMs≤tcpInFrom w.io.nowMs w.ctx.challengeAt then 0 else w.ctx.challenges) < cfg.tcpChallengeAcks

/-- Whether the fifth check ends the processing with a reply. -/
def ackRefutes (io : Io) : Bool :=
  hasBit io.seg.flags tcpAck && (!ackInRange io.seg.ack io.vars.sndUna io.vars.sndNxt io.ctl.maxSndWnd ||
    io.state==.synReceived && !ackNew io.seg.ack io.vars.sndUna io.vars.sndNxt || io.state==.timeWait)

/-- Whether a segment that passes the fifth check is acknowledged: for its text, taken or not, or for its FIN. -/
def occupies : Bool :=
  w.io.seg.dataLen != 0 && takesText (viewed w).state ||
    hasBit w.io.seg.flags tcpFin && w.io.vars.rcvNxt==w.io.seg.seq+w.io.seg.dataLen.setWidth 32

/-- Whether a segment for a synchronized connection is answered, read off the connection in front of the call. -/
def segAnswers : Bool :=
  if pawsRejects cfg w.io then true
  else if hasBit w.io.seg.flags tcpRst then
    w.io.seg.seq != w.io.vars.rcvNxt && rstInWindow w.io.seg.seq w.io.vars.rcvNxt w.io.vars.rcvWnd && roomy cfg w
  else if hasBit w.io.seg.flags tcpSyn then
    !(w.io.state==.synReceived && w.io.listener != noneIndex && verdict w) && roomy cfg w
  else !verdict w && w.io.vars.rcvWnd != 0 || ackRefutes w.io || ackPasses w.io && (!verdict w || occupies w)

/-- Whether a segment that runs through the machine of its connection is answered. -/
def answers : Bool :=
  w.ctx.ready && match w.io.state with
    | .closed => !hasBit w.io.seg.flags tcpRst
    | .listen => false
    | .synSent => !hasBit w.io.seg.flags tcpRst && (synSentAck w.io==none || hasBit w.io.seg.flags tcpSyn)
    | _ => segAnswers cfg w

variable {w} {io : Io}

theorem speaks_congr {u : Io} (h : replyCore u=replyCore io) : speaks u=speaks io := by
  have ha : u.res.act.ack=io.res.act.ack := congrArg ReplyCore.ack h
  have hr : u.res.act.rst=io.res.act.rst := congrArg ReplyCore.rst h
  have ht : u.res.act.text=io.res.act.text := congrArg ReplyCore.text h
  unfold speaks
  rw [ha,hr,ht]

theorem putAck_speaks : speaks (putAck io)=true := rfl

theorem putChallenge_speaks (h : speaks w.io=false) : speaks (putChallenge cfg w).io=roomy cfg w := by
  unfold putChallenge roomy
  dsimp only
  split_ifs with hw hc hc
  · rw [decide_eq_false (BitVec.not_lt.2 hc)]
    exact h
  · rw [decide_eq_true (BitVec.not_le.1 hc)]
    rfl
  · rw [decide_eq_false (BitVec.not_lt.2 hc)]
    exact h
  · rw [decide_eq_true (BitVec.not_le.1 hc)]
    rfl

theorem ackBody_speaks (h : speaks io=false) : speaks (ackBody cfg io).2=(io.state==.timeWait) := by
  have hs : (updateWnd (takeAck io)).state=io.state := (updateWnd_state _).trans (takeAck_state io)
  have hc : replyCore (updateWnd (takeAck io))=replyCore io := settled_replyCore
  rw [←speaks_congr hc] at h
  unfold ackBody ackState
  rw [hs]
  generalize updateWnd (takeAck io)=u at h
  cases io.state <;> dsimp only <;> try split_ifs
  all_goals first | exact h | rfl

theorem checkAck_speaks (h : speaks io=false) : speaks (checkAck cfg io).2=ackRefutes io := by
  have he : speaks (enterEstablished io)=false := (speaks_congr enterEstablished_replyCore).trans h
  have hst : (enterEstablished io).state=.established := takeWnd_state _
  unfold checkAck ackRefutes
  cases hasBit io.seg.flags tcpAck with
  | false => exact h
  | true =>
    cases ackInRange io.seg.ack io.vars.sndUna io.vars.sndNxt io.ctl.maxSndWnd with
    | false => rfl
    | true =>
      by_cases hs : io.state=.synReceived
      · cases ackNew io.seg.ack io.vars.sndUna io.vars.sndNxt with
        | false => simp [hs,speaks,putAckRst]
        | true => simp [hs,ackBody_speaks cfg he,hst]
      · simp [hs,ackBody_speaks cfg h]

/-- Text in a state that may take it is acknowledged; otherwise the seventh check does nothing. -/
theorem checkText_cases (io : Io) : (io.seg.dataLen != 0 && takesText io.state)=true ∧ speaks (checkText io)=true ∨
      (io.seg.dataLen != 0 && takesText io.state)=false ∧ checkText io=io := by
  unfold checkText
  dsimp only
  split_ifs with hd ht
  · exact .inr ⟨by rw [hd]; rfl,rfl⟩
  · exact .inr ⟨by rw [(Bool.not_eq_true' _).mp ht,Bool.and_false],rfl⟩
  · exact .inl ⟨by rw [bne_iff_ne.2 hd]; simpa using ht,rfl⟩
  · exact .inl ⟨by rw [bne_iff_ne.2 hd]; simpa using ht,rfl⟩

/-- The checks behind the fifth take no reply back. -/
theorem checkTextFin_keeps (h : speaks io=true) : speaks (checkTextFin cfg io)=true := by
  have ht : speaks (checkText io)=true := (checkText_cases io).elim (fun h => h.2) fun hc => by rw [hc.2,h]
  unfold checkTextFin checkFin
  dsimp only
  split_ifs <;> first | exact ht | exact speaks_congr (finState_replyCore cfg)

/-- The checks behind the fifth acknowledge text in a state that may take it, and a FIN in order. -/
theorem checkTextFin_speaks (h : speaks io=false) (hh : io.res.act.hold=false) (hs : hasBit io.seg.flags tcpSyn=false) :
    speaks (checkTextFin cfg io)=(io.seg.dataLen != 0 && takesText io.state ||
      hasBit io.seg.flags tcpFin && io.vars.rcvNxt==io.seg.seq+io.seg.dataLen.setWidth 32) := by
  have hq : textSeq io=io.seg.seq := by simp [textSeq,hs]
  have hf (u : Io) : speaks (finState cfg (takeFin u))=true := speaks_congr (finState_replyCore cfg)
  unfold checkTextFin checkFin
  dsimp only
  obtain ⟨hd,ht⟩|⟨hd,he⟩ := checkText_cases io
  · rw [hd]
    split_ifs <;> simp only [ht,hf,Bool.true_or]
  · rw [hd,he,hh,hq,if_neg Bool.false_ne_true]
    cases hasBit io.seg.flags tcpFin with
    | false => exact h
    | true =>
      by_cases hn : io.vars.rcvNxt=io.seg.seq+io.seg.dataLen.setWidth 32
      · simp [hn,hf]
      · simp [hn,h]

theorem checkRst_speaks (h : speaks w.io=false) (hr : hasBit w.io.seg.flags tcpRst) : speaks (checkRst cfg w).2.io=
      (w.io.seg.seq != w.io.vars.rcvNxt && rstInWindow w.io.seg.seq w.io.vars.rcvNxt w.io.vars.rcvWnd && roomy cfg w) := by
  unfold checkRst
  split_ifs with h0 h1 h2
  · simp [hr] at h0
  · simp only [Bool.not_eq_true'] at h1
    simp [h1,h]
  · have h3 : rstInWindow w.io.seg.seq w.io.vars.rcvNxt w.io.vars.rcvWnd := by simpa [h2] using h1
    simp [h2,h3,putChallenge_speaks cfg h]
  · have h3 : w.io.seg.seq=w.io.vars.rcvNxt := not_not.1 h2
    simp only [speaks_congr takeRst_replyCore,h,h3,bne_self_eq_false,Bool.false_and]

theorem checkSyn_speaks (h : speaks w.io=false) (hs : hasBit w.io.seg.flags tcpSyn) : speaks (checkSyn cfg w).2.io=
      (!(w.io.state==.synReceived && w.io.listener != noneIndex && w.io.res.acceptable) && roomy cfg w) := by
  unfold checkSyn
  split_ifs with h0 h1
  · simp [hs] at h0
  · simp only [beq_iff_eq.2 h1.1,bne_iff_ne.2 h1.2.1,h1.2.2]
    exact h
  · rw [putChallenge_speaks cfg h]
    cases hc : w.io.state==.synReceived && w.io.listener != noneIndex && w.io.res.acceptable
    · simp
    · exact (h1 (by simpa [and_assoc] using hc)).elim

theorem checkUrg_ack (io : Io) : ackRefutes (checkUrg io)=ackRefutes io ∧ ackPasses (checkUrg io)=ackPasses io ∧
      (checkUrg io).vars.rcvWnd=io.vars.rcvWnd := by
  unfold checkUrg
  dsimp only
  split_ifs <;> exact ⟨rfl,rfl,rfl⟩

theorem rejectPlain_speaks (h : speaks io=false) :
    speaks (rejectPlain cfg io)=(io.vars.rcvWnd != 0 || ackRefutes io || ackPasses io) := by
  obtain ⟨hr,hp,hw⟩ := checkUrg_ack io
  have hc := checkAck_speaks cfg ((speaks_congr checkUrg_replyCore).trans h)
  unfold rejectPlain
  dsimp only
  rw [hw,checkAck_stops,hp]
  rw [hr] at hc
  split_ifs with h0 h1
  · rw [hc,h0]
    simp [(Bool.not_eq_true' _).mp h1]
  · rw [putAck_speaks]
    simp at h1
    simp [h1]
  · rw [putAck_speaks,bne_iff_ne.2 h0]
    rfl

theorem ackPasses_ackRefutes (h : ackPasses io) : ackRefutes io=false := by
  simp only [ackPasses,Bool.and_eq_true,Bool.or_eq_true,bne_iff_ne,Bool.not_eq_true'] at h
  obtain ⟨⟨⟨ha,hr⟩,hn⟩,hs⟩ := h
  unfold ackRefutes
  cases hst : io.state <;> simp_all [ackStops]

theorem closed_speaks (hr : w.ctx.ready) : speaks (closed w).io= !hasBit w.io.seg.flags tcpRst := by
  unfold closed
  rw [if_pos hr]
  cases hasBit w.io.seg.flags tcpRst <;> rfl

theorem synSentEnter_speaks (io : Io) : speaks (synSentEnter cfg io)=true := by
  obtain ⟨-,h⟩|⟨-,⟨-,h⟩|⟨-,h⟩⟩ := synSentEnter_cases cfg
  · rw [h]
    rfl
  · rw [h]
    exact checkTextFin_keeps cfg ((speaks_congr checkUrg_replyCore).trans rfl)
  · rw [h]
    rfl

/-- SYN-SENT answers a bad ACK with a reset, and a SYN. -/
theorem synSent_speaks (hr : w.ctx.ready) (hs : w.io.state=.synSent) : speaks (synSent cfg w).io=
      (!hasBit w.io.seg.flags tcpRst && (synSentAck w.io==none || hasBit w.io.seg.flags tcpSyn)) := by
  have ha : synSentAck (begun w)=synSentAck w.io := rfl
  unfold synSent
  rw [if_neg (by simp [hr,hs]),ha]
  cases synSentAck w.io with
  | none => cases hf : hasBit w.io.seg.flags tcpRst <;> simp [speaks,putAckRst,begun,opened,resultClear,Act.none]
  | some ackOk =>
    have hq : (begun w).seg=w.io.seg := rfl
    dsimp only
    unfold synSentBody synSentRst
    rw [hq]
    split_ifs with h1 h2 h3
    · simp [h1]; rfl
    · simp [h1]; rfl
    · simp [h1,h3,synSentEnter_speaks cfg]
    · simp [h1,h3]; rfl

/-- A segment that reaches its text is acknowledged if it occupies sequence space there. -/
theorem atText_speaks (hp : ackPasses w.io) (h : speaks (checkAck cfg (judged cfg w)).2=false)
    (hs : hasBit w.io.seg.flags tcpSyn=false) : speaks (checkTextFin cfg (atText cfg w))=occupies w := by
  obtain ⟨hseg,htxt,hst⟩ := atText_reads cfg w hp
  have hnxt : (atText cfg w).vars.rcvNxt=w.io.vars.rcvNxt := congrArg TextCore.rcvNxt htxt
  have hq : speaks (atText cfg w)=false := (speaks_congr checkUrg_replyCore).trans h
  rw [checkTextFin_speaks cfg hq (congrArg TextCore.hold htxt) (by rwa [hseg]),hseg,hnxt,hst]
  rfl

/-- A segment for a synchronized connection is answered as the connection in front of it says. -/
theorem segment_speaks (hr : w.ctx.ready) (hk : 3≤w.io.state.rank) : speaks (segment cfg w).io=segAnswers cfg w := by
  have hp : (stamped cfg w).1=pawsRejects cfg w.io := paws_fst cfg (begun w)
  obtain ⟨hsg,hv,hst,hl,hm,-,-,hac⟩ := judged_parts cfg w
  have hj : speaks (judged cfg w)=false ∧ roomy cfg {w with io := judged cfg w}=roomy cfg w := by
    obtain ⟨ts,ms,h⟩ := judged_frame cfg w
    rw [h]
    exact ⟨rfl,rfl⟩
  have href : ackRefutes (judged cfg w)=ackRefutes w.io := by
    unfold ackRefutes
    rw [hsg,hv,hst,hm]
  have hpass := ackPasses_judged cfg w
  rw [segment_eq,if_neg (by simp [hr,hk]),hp]
  unfold segAnswers
  cases pawsRejects cfg w.io with
  | true => rfl
  | false =>
  cases hrs : hasBit w.io.seg.flags tcpRst with
  | true =>
    have hc := checkRst_speaks cfg (w := {w with io := judged cfg w}) hj.1 (by dsimp only; rwa [hsg])
    dsimp only at hc
    rw [hsg,hv,hj.2] at hc
    exact hc
  | false =>
  cases hsy : hasBit w.io.seg.flags tcpSyn with
  | true =>
    have hc := checkSyn_speaks cfg (w := {w with io := judged cfg w}) hj.1 (by dsimp only; rwa [hsg])
    dsimp only at hc
    rw [hst,hl,hac,hj.2] at hc
    exact hc
  | false =>
  cases hvd : verdict w with
  | false =>
    have hc := rejectPlain_speaks cfg hj.1
    rw [hv,href,hpass] at hc
    simpa using hc
  | true =>
    have hca := checkAck_speaks cfg hj.1
    rw [href] at hca
    cases hap : ackPasses w.io with
    | false => simpa [checkAck_stops,hpass,hap] using hca
    | true =>
      have hno := ackPasses_ackRefutes hap
      have hc := atText_speaks cfg hap (hca.trans hno) hsy
      unfold atText at hc
      simpa [checkAck_stops,hpass,hap,hno] using hc

end Answers

end IdemIp.TcpIn
