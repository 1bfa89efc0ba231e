import IdemIp.TcpInGuards
import IdemIp.TcpPcb

/-!
# The states a segment leads to and what it takes

A segment in a state the machine runs always asks for a transition the tables
permit, and for LISTEN only where a reset or a SYN takes back a SYN-RECEIVED
that a listener made. The seventh and eighth checks in closed form: which octets
of a segment become text, which are left for later, and when its FIN counts.
-/

namespace IdemIp.TcpIn

section Transitions

variable (cfg : Config) (w : Work) (io : Io)

/-- States the fifth check may leave. -/
def ackNext : TcpState → List TcpState
  | .synReceived => [.synReceived,.established]
  | .finWait1 => [.finWait1,.finWait2]
  | .closing => [.closing,.timeWait]
  | .lastAck => [.lastAck,.closed]
  | s => [s]

/-- States the eighth check may leave. -/
def finNext : TcpState → List TcpState
  | .synReceived => [.synReceived,.closeWait]
  | .established => [.established,.closeWait]
  | .finWait1 => [.finWait1,.closing,.timeWait]
  | .finWait2 => [.finWait2,.timeWait]
  | s => [s]

variable {s : TcpState}

theorem mem_ackNext_self : s∈ackNext s := by cases s <;> decide

theorem mem_finNext_self : s∈finNext s := by cases s <;> decide

theorem putChallenge_state : (putChallenge cfg w).io.state=w.io.state := by
  unfold putChallenge
  dsimp only
  split_ifs <;> rfl

theorem takeWnd_state : (takeWnd io).state=io.state := by
  unfold takeWnd setSndWnd raiseMaxSndWnd
  split_ifs <;> rfl

theorem updateWnd_state : (updateWnd io).state=io.state := by
  unfold updateWnd
  dsimp only
  split_ifs
  · exact takeWnd_state io
  · rfl
  · rfl

theorem takeAck_state : (takeAck io).state=io.state := by
  unfold takeAck
  split_ifs <;> rfl

theorem checkUrg_state : (checkUrg io).state=io.state := by
  unfold checkUrg
  dsimp only
  split_ifs <;> rfl

theorem checkText_state : (checkText io).state=io.state := by
  unfold checkText holdText
  dsimp only
  split_ifs <;> rfl

theorem ackState_mem : (ackState cfg io).2.state∈ackNext io.state := by
  unfold ackState
  cases hs : io.state <;> dsimp only [ackNext] <;> try split_ifs
  all_goals simp [hs,put2msl,putAck]

theorem checkAck_mem : (checkAck cfg io).2.state∈ackNext io.state := by
  have hb : ∀ x : Io,(updateWnd (takeAck x)).state=x.state :=
    fun x => (updateWnd_state (takeAck x)).trans (takeAck_state x)
  unfold checkAck
  split_ifs with ha hr hs hn
  · exact mem_ackNext_self
  · exact mem_ackNext_self
  · have he : (updateWnd (takeAck (enterEstablished io))).state=.established := (hb _).trans (takeWnd_state _)
    have hm := ackState_mem cfg (updateWnd (takeAck (enterEstablished io)))
    rw [he] at hm
    rw [hs]
    unfold ackBody
    simp only [ackNext,List.mem_singleton] at hm
    rw [hm]
    decide
  · exact mem_ackNext_self
  · have hm := ackState_mem cfg (updateWnd (takeAck io))
    rw [hb] at hm
    exact hm

theorem checkTextFin_mem : (checkTextFin cfg io).state∈finNext io.state := by
  have ht := checkText_state io
  unfold checkTextFin
  dsimp only
  split_ifs
  · rw [ht]
    exact mem_finNext_self
  unfold checkFin
  split_ifs
  · rw [ht]
    exact mem_finNext_self
  · rw [ht]
    exact mem_finNext_self
  have hs : (takeFin (checkText io)).state=io.state := ht
  unfold finState
  cases h : io.state <;> rw [h] at hs <;> simp only [hs] <;> try split_ifs
  all_goals simp [finNext,put2msl,hs]

/-- Whether R1 rejects a segment: an older timestamp, no reset, and TS.Recent not outdated. -/
def pawsRejects : Bool :=
  hasBit io.ctl.flags ctlTsOk && io.opts.tsPresent && tsLt io.opts.tsval io.ctl.tsRecent &&
    !hasBit io.seg.flags tcpRst && tcpInFrom io.nowMs io.ctl.tsRecentMs ≤ cfg.tcpTsRecentMaxMs

theorem paws_fst : (paws cfg io).1=pawsRejects cfg io := by
  unfold paws pawsRejects
  cases hasBit io.ctl.flags ctlTsOk <;> cases io.opts.tsPresent <;> cases tsLt io.opts.tsval io.ctl.tsRecent <;>
    cases hasBit io.seg.flags tcpRst <;> simp <;> split_ifs <;> simp_all

theorem checkRst_state : (checkRst cfg w).2.io.state=w.io.state ∨ (checkRst cfg w).2.io.state=.closed ∨
      (checkRst cfg w).2.io.state=.listen ∧ w.io.state=.synReceived := by
  unfold checkRst
  split_ifs
  · exact .inl rfl
  · exact .inl rfl
  · exact .inl (putChallenge_state cfg w)
  unfold takeRst
  cases hs : w.io.state <;> dsimp only <;> try split_ifs
  all_goals simp [hs]

theorem checkSyn_state : (checkSyn cfg w).2.io.state=w.io.state ∨
      (checkSyn cfg w).2.io.state=.listen ∧ w.io.state=.synReceived := by
  unfold checkSyn
  split_ifs with hs hl
  · exact .inl rfl
  · exact .inr ⟨rfl,hl.1⟩
  · exact .inl (putChallenge_state cfg w)

theorem rejectPlain_mem : (rejectPlain cfg io).state∈ackNext io.state := by
  have hu := checkUrg_state io
  have ha := checkAck_mem cfg (checkUrg io)
  rw [hu] at ha
  unfold rejectPlain
  dsimp only
  split_ifs
  · exact ha
  · exact ha
  show (checkUrg io).state∈_
  rw [hu]
  exact mem_ackNext_self

theorem transition_ack_fin {t u : TcpState} (ht : t∈ackNext s) (hu : u∈finNext t) : TcpPcb.transitionOk s u := by
  revert ht hu
  cases s <;> cases t <;> cases u <;> decide

theorem segment_transition : TcpPcb.transitionOk w.io.state (segment cfg w).io.state := by
  have hj := (judged_parts cfg w).2.2.1
  have hsl : TcpPcb.transitionOk w.io.state w.io.state :=
    transition_ack_fin (mem_ackNext_self) (mem_finNext_self)
  have hc : TcpPcb.transitionOk w.io.state .closed := by
    cases w.io.state <;> decide
  rw [segment_eq]
  split_ifs
  · exact hsl
  · rw [(putPaws_stamped_parts cfg w).2.1]
    exact hsl
  · rcases checkRst_state cfg {w with io := judged cfg w} with h | h | ⟨h,hs⟩
    · rw [h,hj]
      exact hsl
    · rw [h]
      exact hc
    · rw [h,←hj,hs]
      decide
  · rcases checkSyn_state cfg {w with io := judged cfg w} with h | ⟨h,hs⟩
    · rw [h,hj]
      exact hsl
    · rw [h,←hj,hs]
      decide
  · have hm := rejectPlain_mem cfg (judged cfg w)
    rw [hj] at hm
    exact transition_ack_fin hm (mem_finNext_self)
  · have hm := checkAck_mem cfg (judged cfg w)
    rw [hj] at hm
    exact transition_ack_fin hm (mem_finNext_self)
  · have hm := checkAck_mem cfg (judged cfg w)
    have hf := checkTextFin_mem cfg (checkUrg (checkAck cfg (judged cfg w)).2)
    rw [hj] at hm
    rw [checkUrg_state] at hf
    exact transition_ack_fin hm hf

/-- A segment takes a listener's SYN-RECEIVED back: a reset at RCV.NXT, or a SYN no test refuses. -/
def relists : Bool :=
  w.ctx.ready && w.io.state==.synReceived && w.io.listener != noneIndex &&
    if hasBit w.io.seg.flags tcpRst then w.io.seg.seq==w.io.vars.rcvNxt
    else hasBit w.io.seg.flags tcpSyn && !pawsRejects cfg w.io && verdict w

theorem listen_not_mem_ackNext (hs : s≠.listen) : TcpState.listen∉ackNext s := by
  cases s <;> first | decide | exact absurd rfl hs

theorem listen_not_mem_finNext (hs : s≠.listen) : TcpState.listen∉finNext s := by
  cases s <;> first | decide | exact absurd rfl hs

theorem takeRst_listen_iff {io : Io} (hs : io.state≠.listen) :
    (takeRst io).state=.listen ↔ io.state=.synReceived ∧ io.listener≠noneIndex := by
  unfold takeRst
  cases hst : io.state with
  | synReceived => by_cases hl : io.listener=noneIndex <;> simp [hl]
  | listen => exact absurd hst hs
  | _ => simp [hst]

theorem checkRst_listen_iff {w : Work} (hs : w.io.state≠.listen) (hr : hasBit w.io.seg.flags tcpRst) :
    (checkRst cfg w).2.io.state=.listen ↔
      w.io.state=.synReceived ∧ w.io.listener≠noneIndex ∧ w.io.seg.seq=w.io.vars.rcvNxt := by
  unfold checkRst
  simp only [hr,Bool.not_true,Bool.false_eq_true,if_false]
  by_cases hq : w.io.seg.seq=w.io.vars.rcvNxt
  · simp only [hq,ne_eq,not_true_eq_false,false_and,if_false,and_true]
    exact takeRst_listen_iff hs
  split_ifs
  · simp [hs,hq]
  · rw [putChallenge_state]
    simp [hs,hq]

theorem checkSyn_listen_iff {w : Work} (hs : w.io.state≠.listen) (hy : hasBit w.io.seg.flags tcpSyn) :
    (checkSyn cfg w).2.io.state=.listen ↔ w.io.state=.synReceived ∧ w.io.listener≠noneIndex ∧ w.io.res.acceptable := by
  unfold checkSyn
  simp only [hy,Bool.not_true,Bool.false_eq_true,if_false]
  split_ifs with h
  · simpa using h
  rw [putChallenge_state]
  simp only [hs,false_iff]
  exact h

theorem segment_listen_iff {cfg : Config} {w : Work} (hs : w.io.state≠.listen) :
    (segment cfg w).io.state=.listen ↔ relists cfg w := by
  obtain ⟨hsg,hv,hj,hl,-,-,-,hac⟩ := judged_parts cfg w
  have hp : (stamped cfg w).1=pawsRejects cfg w.io := paws_fst cfg (begun w)
  have hrd : w.ctx.ready=false ∨ w.io.state.rank<3 → relists cfg w=false := by
    unfold relists
    rintro (h | h)
    · simp [h]
    · cases hst : w.io.state <;> simp [hst,TcpState.rank] at h ⊢
  rw [segment_eq]
  by_cases hg : (!w.ctx.ready || decide (w.io.state.rank<3))
  · rw [if_pos hg,hrd (by simpa using hg)]
    simp [opened,resultClear,hs]
  rw [if_neg hg]
  have hr : w.ctx.ready := by
    by_contra hr
    simp [hr] at hg
  have hJ : ({w with io := judged cfg w} : Work).io.state≠.listen := by rw [hj]; exact hs
  have hR := checkRst_listen_iff cfg hJ
  have hY := checkSyn_listen_iff cfg hJ
  rw [hsg,hj,hl,hv] at hR
  rw [hsg,hj,hl,hac] at hY
  unfold relists
  rw [hp,hr]
  by_cases hrs : hasBit w.io.seg.flags tcpRst
  · have hnp : pawsRejects cfg w.io=false := by simp [pawsRejects,hrs]
    simp only [hnp,hrs,Bool.false_eq_true,if_false,if_true]
    rw [hR hrs]
    simp [and_assoc]
  by_cases hnp : pawsRejects cfg w.io
  · simp only [hnp,hrs,if_true]
    rw [show (putPaws (stamped cfg w).2).state=w.io.state from (putPaws_stamped_parts cfg w).2.1]
    simp [hs]
  by_cases hsy : hasBit w.io.seg.flags tcpSyn
  · simp only [hnp,hrs,hsy,Bool.false_eq_true,if_false,if_true]
    rw [hY hsy]
    simp [and_assoc]
  simp only [hnp,hrs,hsy,Bool.false_eq_true,if_false]
  have ha := checkAck_mem cfg (judged cfg w)
  have hf := checkTextFin_mem cfg (checkUrg (checkAck cfg (judged cfg w)).2)
  have hq := rejectPlain_mem cfg (judged cfg w)
  rw [hj] at ha hq
  rw [checkUrg_state] at hf
  have han : (checkAck cfg (judged cfg w)).2.state≠.listen :=
    fun h => listen_not_mem_ackNext hs (h ▸ ha)
  simp only [Bool.false_and,Bool.and_false,Bool.false_eq_true,iff_false]
  split_ifs
  · exact fun h => listen_not_mem_ackNext hs (h ▸ hq)
  · exact han
  · exact fun h => listen_not_mem_finNext han (h ▸ hf)

theorem synSentEnter_not_listen : (synSentEnter cfg io).state≠.listen := by
  unfold synSentEnter
  split_ifs
  · dsimp only
    split_ifs
    · intro h
      have hf := checkTextFin_mem cfg (checkUrg (putAck {io with
        state := .established
        res := {io.res with act := {io.res.act with established := true}}}))
      rw [checkUrg_state,h] at hf
      exact listen_not_mem_finNext (by simp [putAck]) hf
    · simp [putAck]
  · simp [putSynAck]

theorem synSent_not_listen {cfg : Config} {w : Work} (hs : w.io.state≠.listen) : (synSent cfg w).io.state≠.listen := by
  unfold synSent
  split
  · exact hs
  split
  · dsimp only
    split_ifs <;> exact hs
  rename_i ackOk _
  unfold synSentBody synSentRst
  split_ifs
  · simp
  · exact hs
  · exact synSentEnter_not_listen cfg _
  · exact hs

end Transitions

section Text

open TextCore

section Checks

variable (io : Io)

/-- Distance from the first data octet to RCV.NXT. -/
def textGap : BitVec 32 := tcpInFrom io.vars.rcvNxt (textSeq io)

/-- Whether the seventh check takes text: the state allows it and RCV.NXT is one of the data octets. -/
def takes : Bool := takesText io.state && textGap io < io.seg.dataLen.setWidth 32

/-- Whether it leaves the text for later: it begins past RCV.NXT, inside the window. -/
def holds : Bool :=
  io.seg.dataLen != 0 && takesText io.state && io.seg.dataLen.setWidth 32≤textGap io &&
    tcpInFrom (textSeq io) io.vars.rcvNxt != 0 && tcpInFrom (textSeq io) io.vars.rcvNxt < io.vars.rcvWnd

/-- Octets past RCV.NXT that are in the segment and in the window. -/
def fitting : BitVec 32 :=
  let avail := io.seg.dataLen.setWidth 32-textGap io
  if io.vars.rcvWnd<avail then io.vars.rcvWnd else avail

def taken : BitVec 32 := if takes io then fitting io else 0

/-- Whether the eighth check consumes the FIN: nothing is left for later and every octet in front of it
is taken. -/
def takesFin : Bool :=
  hasBit io.seg.flags tcpFin && !holds io && io.vars.rcvNxt+taken io==textSeq io+io.seg.dataLen.setWidth 32

theorem takes_not_holds (h : takes io) : holds io=false := by
  simp only [takes,Bool.and_eq_true,decide_eq_true_eq] at h
  have hlt : ¬io.seg.dataLen.setWidth 32≤textGap io := BitVec.not_le.2 h.2
  simp [holds,hlt]

theorem takes_dataLen (h : takes io) : io.seg.dataLen≠0 := by
  intro hz
  simp [takes,hz] at h

theorem fitting_le (h : takes io) :
    (fitting io).toNat ≤ io.vars.rcvWnd.toNat ∧ (textGap io).toNat+(fitting io).toNat ≤ io.seg.dataLen.toNat := by
  simp only [takes,Bool.and_eq_true,decide_eq_true_eq] at h
  have hlt : (textGap io).toNat < io.seg.dataLen.toNat := by
    have hlt := BitVec.lt_def.1 h.2
    rw [BitVec.toNat_setWidth_of_le (by decide)] at hlt
    exact hlt
  have hs : (io.seg.dataLen.setWidth 32-textGap io).toNat=io.seg.dataLen.toNat-(textGap io).toNat := by
    rw [BitVec.toNat_sub_of_le (BitVec.le_of_lt h.2),BitVec.toNat_setWidth_of_le (by decide)]
  unfold fitting
  dsimp only
  split_ifs with hw
  · have hw' := BitVec.lt_def.1 hw
    omega
  · have hw' := BitVec.le_def.1 (BitVec.not_lt.1 hw)
    omega

theorem checkText_textCore : textCore (checkText io)=
      if takes io then ⟨io.vars.rcvNxt+fitting io,io.vars.rcvWnd-fitting io,io.vars.rcvNxt,(textGap io).setWidth 16,
        (fitting io).setWidth 16,true,io.res.act.hold,io.res.act.closing⟩
      else if holds io then ⟨io.vars.rcvNxt,io.vars.rcvWnd,textSeq io,0,io.seg.dataLen,io.res.act.text,true,io.res.act.closing⟩
      else textCore io := by
  unfold checkText
  by_cases hd : io.seg.dataLen=0
  · have ht : takes io=false := Bool.eq_false_iff.2 fun h => takes_dataLen io h hd
    rw [if_pos hd,ht]
    simp [holds,hd]
  rw [if_neg hd]
  by_cases hs : takesText io.state
  · rw [if_neg (by simp [hs])]
    by_cases hg : io.seg.dataLen.setWidth 32≤textGap io
    · have ht : takes io=false := by simp [takes,hg]
      rw [if_pos (by exact hg),ht]
      have hh : holds io ↔ tcpInFrom (textSeq io) io.vars.rcvNxt≠0 ∧
          tcpInFrom (textSeq io) io.vars.rcvNxt < io.vars.rcvWnd := by
        simp only [holds,hs,hg,bne_iff_ne,ne_eq,hd,not_false_eq_true,Bool.and_eq_true,decide_true,decide_eq_true_eq,
          and_self,true_and]
      unfold holdText
      by_cases hc : tcpInFrom (textSeq io) io.vars.rcvNxt≠0 ∧ tcpInFrom (textSeq io) io.vars.rcvNxt < io.vars.rcvWnd
      · rw [if_pos hc,if_pos (hh.2 hc)]
        rfl
      · rw [if_neg hc,if_neg fun h => hc (hh.1 h)]
        rfl
    · have ht : takes io := by
        simp only [takes,hs,Bool.true_and,decide_eq_true_eq]
        exact BitVec.not_le.1 hg
      rw [if_neg (by exact hg),ht]
      rfl
  · have ht : takes io=false := by simp [takes,hs]
    rw [if_pos (by simpa using hs),ht]
    simp [holds,hs]

theorem checkText_rcvNxt : (checkText io).vars.rcvNxt=io.vars.rcvNxt+taken io := by
  have h := congrArg rcvNxt (checkText_textCore io)
  refine Eq.trans h ?_
  unfold taken
  split_ifs
  · rfl
  · exact (add_zero _).symm
  · exact (add_zero _).symm

theorem checkText_hold : (checkText io).res.act.hold=(io.res.act.hold || holds io) := by
  have h := congrArg hold (checkText_textCore io)
  refine Eq.trans h ?_
  split_ifs with ht hh
  · rw [takes_not_holds io ht,Bool.or_false]
  · rw [hh,Bool.or_true]
  · rw [Bool.eq_false_iff.2 hh,Bool.or_false]
    rfl

/-- The state behind a consumed FIN. -/
def finTo (acked : Bool) : TcpState → TcpState
  | .synReceived | .established => .closeWait
  | .finWait1 => if acked then .timeWait else .closing
  | .finWait2 => .timeWait
  | s => s

theorem finState_state (cfg : Config) : (finState cfg io).state=finTo (io.vars.sndUna==io.vars.sndNxt) io.state := by
  unfold finState finTo
  cases hs : io.state with
  | finWait1 =>
    by_cases ha : io.vars.sndUna=io.vars.sndNxt
    · simp [ha,put2msl]
    · simp [ha]
  | _ => simp [hs,put2msl]

/-- A FIN that is not consumed leaves the seventh check's block, one that is adds its number. -/
theorem checkTextFin_eq {cfg : Config} (h : io.res.act.hold=false) :
    checkTextFin cfg io=if takesFin io then finState cfg (takeFin (checkText io)) else checkText io := by
  have hs : (checkText io).seg=io.seg := (checkText_parts io).1
  have hts : textSeq (checkText io)=textSeq io := by
    unfold textSeq
    rw [hs]
  unfold checkTextFin takesFin
  dsimp only
  rw [checkText_hold,h,Bool.false_or]
  cases hh : holds io with
  | true => simp
  | false =>
    unfold checkFin
    rw [hs,hts,checkText_rcvNxt]
    cases hasBit io.seg.flags tcpFin with
    | false => rfl
    | true =>
      by_cases hp : io.vars.rcvNxt+taken io=textSeq io+io.seg.dataLen.setWidth 32 <;> simp [hp]

theorem checkTextFin_textCore (cfg : Config) (h : io.res.act.hold=false) : textCore (checkTextFin cfg io)=
      if takesFin io then {textCore (checkText io) with
        rcvNxt := io.vars.rcvNxt+taken io+1
        closing := true}
      else textCore (checkText io) := by
  rw [checkTextFin_eq io h]
  split_ifs
  · rw [(finState_quiet cfg (takeFin (checkText io))).text,←checkText_rcvNxt]
    rfl
  · rfl

theorem checkTextFin_state {cfg : Config} (h : io.res.act.hold=false) : (checkTextFin cfg io).state=
      if takesFin io then finTo (io.vars.sndUna==io.vars.sndNxt) io.state else io.state := by
  have hs := (checkText_parts io).2.1
  have hu : (checkText io).vars.sndUna=io.vars.sndUna := congrArg SndCore.sndUna hs
  have hn : (checkText io).vars.sndNxt=io.vars.sndNxt := congrArg SndCore.sndNxt hs
  rw [checkTextFin_eq io h]
  split_ifs
  · rw [finState_state]
    show finTo ((checkText io).vars.sndUna==(checkText io).vars.sndNxt) (checkText io).state=_
    rw [hu,hn,checkText_state]
  · exact checkText_state io

end Checks

/-- States in which the fifth check ends the processing. -/
def ackStops : TcpState → Bool
  | .closing | .lastAck | .timeWait => true
  | _ => false

/-- Whether the fifth check lets a segment through. -/
def ackPasses (io : Io) : Bool :=
  hasBit io.seg.flags tcpAck && ackInRange io.seg.ack io.vars.sndUna io.vars.sndNxt io.ctl.maxSndWnd &&
    (io.state != .synReceived || ackNew io.seg.ack io.vars.sndUna io.vars.sndNxt) && !ackStops io.state

theorem ackBody_stops (cfg : Config) (io : Io) : (ackBody cfg io).1=ackStops io.state := by
  have hs : (updateWnd (takeAck io)).state=io.state := (updateWnd_state _).trans (takeAck_state io)
  unfold ackBody ackState
  rw [hs]
  cases io.state <;> rfl

/-- The fifth check ends the processing exactly when it does not let the segment through. -/
theorem checkAck_stops (cfg : Config) (io : Io) : (checkAck cfg io).1= !ackPasses io := by
  have he : (enterEstablished io).state=.established := takeWnd_state _
  unfold checkAck ackPasses
  cases hasBit io.seg.flags tcpAck with
  | false => rfl
  | true =>
    cases ackInRange io.seg.ack io.vars.sndUna io.vars.sndNxt io.ctl.maxSndWnd with
    | false => rfl
    | true =>
      by_cases hs : io.state=.synReceived
      · cases hn : ackNew io.seg.ack io.vars.sndUna io.vars.sndNxt <;>
          simp [hs,ackBody_stops,he,ackStops]
      · simp [hs,ackBody_stops]

/-- States from which a segment that passes the fifth check may still bring text. -/
def textOpen : TcpState → Bool
  | .synReceived => true
  | s => takesText s

theorem checkAck_takesText (cfg : Config) {io : Io} (h : ackPasses io) :
    takesText (checkAck cfg io).2.state=textOpen io.state := by
  have hm := checkAck_mem cfg io
  have hp := h
  simp only [ackPasses,Bool.and_eq_true,Bool.or_eq_true,bne_iff_ne,Bool.not_eq_true'] at hp
  obtain ⟨⟨⟨ha,hr⟩,hn⟩,hst⟩ := hp
  cases hs : io.state with
  | synReceived =>
    have hnew' : ackNew io.seg.ack io.vars.sndUna io.vars.sndNxt := hn.resolve_left fun hne => hne hs
    have he : (updateWnd (takeAck (enterEstablished io))).state=.established :=
      (updateWnd_state _).trans ((takeAck_state _).trans (takeWnd_state _))
    have hb := ackState_mem cfg (updateWnd (takeAck (enterEstablished io)))
    rw [he] at hb
    unfold checkAck ackBody
    rw [if_neg (by simp [ha]),if_neg (by simp [hr]),if_pos hs,if_pos hnew',List.mem_singleton.1 hb]
    rfl
  | closing => simp [hs,ackStops] at hst
  | lastAck => simp [hs,ackStops] at hst
  | timeWait => simp [hs,ackStops] at hst
  | finWait1 =>
    rw [hs] at hm
    simp only [ackNext,List.mem_cons,List.not_mem_nil,or_false] at hm
    rcases hm with h|h <;> rw [h] <;> rfl
  | _ =>
    rw [hs] at hm
    rw [List.mem_singleton.1 hm]
    rfl

section Segment

variable (cfg : Config) (w : Work)

/-- Whether a segment passes every check up to its text. -/
def reachesText : Bool :=
  w.ctx.ready && 3≤w.io.state.rank && !pawsRejects cfg w.io && !hasBit w.io.seg.flags tcpRst &&
    !hasBit w.io.seg.flags tcpSyn && verdict w && ackPasses w.io

/-- The block the seventh check works on. -/
def atText : Io := checkUrg (checkAck cfg (judged cfg w)).2

theorem ackPasses_judged : ackPasses (judged cfg w)=ackPasses w.io := by
  obtain ⟨hsg,hv,hs,-,hm,-⟩ := judged_parts cfg w
  unfold ackPasses
  rw [hsg,hv,hs,hm]

/-- A segment reaches its text, or the text part stays as the entry clears it. -/
theorem segment_reaches : reachesText cfg w ∧ segment cfg w={w with io := checkTextFin cfg (atText cfg w)} ∨
      reachesText cfg w=false ∧ textCore (segment cfg w).io=textCore (opened w) := by
  have hj := (judged_parts cfg w).2.2.2.2.2.2.1
  have hp : (stamped cfg w).1=pawsRejects cfg w.io := paws_fst cfg (begun w)
  have ha : (checkAck cfg (judged cfg w)).1= !ackPasses w.io := by rw [checkAck_stops,ackPasses_judged]
  rw [segment_eq]
  unfold reachesText
  by_cases hg : (!w.ctx.ready || decide (w.io.state.rank<3))
  · rw [if_pos hg]
    refine .inr ⟨?_,rfl⟩
    rcases Bool.or_eq_true _ _ ▸ hg with h|h
    · have hr : w.ctx.ready=false := by simpa using h
      simp [hr]
    · have hr : ¬3≤w.io.state.rank := by simpa using h
      simp [hr]
  rw [if_neg hg]
  have hr : w.ctx.ready ∧ 3≤w.io.state.rank := by simpa using hg
  rw [hp]
  cases hpw : pawsRejects cfg w.io with
  | true => exact .inr ⟨by simp,by rw [if_pos rfl]; exact (putPaws_stamped_parts cfg w).2.2.2.1⟩
  | false =>
    cases hrs : hasBit w.io.seg.flags tcpRst with
    | true => exact .inr ⟨by simp,(checkRst_quiet cfg {w with io := judged cfg w}).text.trans hj⟩
    | false =>
      cases hs : hasBit w.io.seg.flags tcpSyn with
      | true => exact .inr ⟨by simp,(checkSyn_quiet cfg {w with io := judged cfg w}).text.trans hj⟩
      | false =>
        cases hv : verdict w with
        | false => exact .inr ⟨by simp,(rejectPlain_parts cfg (judged cfg w)).1.trans hj⟩
        | true =>
          rw [ha]
          cases hac : ackPasses w.io with
          | false => exact .inr ⟨by simp,(checkAck_parts cfg (judged cfg w)).2.1.trans hj⟩
          | true => exact .inl ⟨by simp [hr],rfl⟩

/-- The connection as the seventh check sees it: an ACK has taken SYN-RECEIVED to ESTABLISHED. -/
def viewed : Io := {w.io with state := if w.io.state=.synReceived then .established else w.io.state}

/-- Whether a segment's text is taken. -/
def segTakes : Bool := reachesText cfg w && takes (viewed w)

/-- Whether it is left for later. -/
def segHolds : Bool := reachesText cfg w && holds (viewed w)

/-- Octets taken of a segment. -/
def segTaken : BitVec 32 := if reachesText cfg w then taken (viewed w) else 0

/-- Whether its FIN is consumed. -/
def segFin : Bool := reachesText cfg w && takesFin (viewed w)

theorem atText_reads (h : ackPasses w.io) : (atText cfg w).seg=w.io.seg ∧ textCore (atText cfg w)=textCore (opened w) ∧
      takesText (atText cfg w).state=takesText (viewed w).state := by
  have hu := checkUrg_quiet (checkAck cfg (judged cfg w)).2
  have ha := checkAck_parts cfg (judged cfg w)
  obtain ⟨hsg,-,hs,-,-,-,hc,-⟩ := judged_parts cfg w
  refine ⟨hu.seg.trans (ha.1.trans hsg),hu.text.trans (ha.2.1.trans hc),?_⟩
  have ht := checkAck_takesText cfg ((ackPasses_judged cfg w).trans h)
  rw [hs] at ht
  refine (congrArg takesText (checkUrg_state _)).trans (ht.trans ?_)
  unfold viewed
  cases w.io.state <;> rfl

/-- So its decisions can be read off the connection in front of the call. -/
theorem atText_decides (h : ackPasses w.io) :
    textGap (atText cfg w)=textGap (viewed w) ∧ takes (atText cfg w)=takes (viewed w) ∧
      holds (atText cfg w)=holds (viewed w) ∧ fitting (atText cfg w)=fitting (viewed w) ∧
      takesFin (atText cfg w)=takesFin (viewed w) := by
  obtain ⟨hs,hc,ht⟩ := atText_reads cfg w h
  have hn : (atText cfg w).vars.rcvNxt=w.io.vars.rcvNxt := congrArg rcvNxt hc
  have hw : (atText cfg w).vars.rcvWnd=w.io.vars.rcvWnd := congrArg rcvWnd hc
  have hseg' : (viewed w).seg=w.io.seg := rfl
  have hn' : (viewed w).vars.rcvNxt=w.io.vars.rcvNxt := rfl
  have hw' : (viewed w).vars.rcvWnd=w.io.vars.rcvWnd := rfl
  simp only [takesFin,taken,takes,holds,fitting,textGap,textSeq,hs,hn,hw,ht,hseg',hn',hw',and_self]

theorem textSeq_plain {io : Io} (h : hasBit io.seg.flags tcpSyn=false) : textSeq io=io.seg.seq := by
  unfold textSeq
  rw [h]
  exact add_zero _

theorem segTakes_bounds (h : segTakes cfg w) : (segTaken cfg w).toNat≤w.io.vars.rcvWnd.toNat ∧
      (w.io.vars.rcvNxt-w.io.seg.seq).toNat+(segTaken cfg w).toNat≤w.io.seg.dataLen.toNat := by
  simp only [segTakes,Bool.and_eq_true] at h
  have hs : segTaken cfg w=fitting (viewed w) := by
    unfold segTaken taken
    rw [h.1,h.2,if_pos rfl,if_pos rfl]
  have ha := h.1
  simp only [reachesText,Bool.and_eq_true,Bool.not_eq_true'] at ha
  have hsq : textSeq (viewed w)=w.io.seg.seq := textSeq_plain ha.1.1.2
  have hg : textGap (viewed w)=w.io.vars.rcvNxt-w.io.seg.seq := by
    unfold textGap
    rw [hsq]
    rfl
  obtain ⟨hw,hd⟩ := fitting_le (viewed w) h.2
  rw [hg] at hd
  rw [hs]
  exact ⟨hw,hd⟩

/-- What a segment does to the receive side, in terms of the connection in front of the call. -/
structure Received (io : Io) : Prop where
  /-- RCV.NXT moves over the text taken and over a FIN consumed. -/
  rcvNxt : io.vars.rcvNxt=w.io.vars.rcvNxt+segTaken cfg w+(if segFin cfg w then 1 else 0)
  rcvWnd : io.vars.rcvWnd=w.io.vars.rcvWnd-segTaken cfg w
  /-- The reports say which of the three happened. -/
  flags : io.res.act.text=segTakes cfg w ∧ io.res.act.hold=segHolds cfg w ∧ io.res.act.closing=segFin cfg w
  /-- Text taken begins at RCV.NXT, the gap into the data. -/
  text : segTakes cfg w=true → io.res.textSeq=w.io.vars.rcvNxt ∧ io.res.textOff=(textGap (viewed w)).setWidth 16 ∧
    io.res.textLen=(segTaken cfg w).setWidth 16
  /-- Text left for later is the whole of the data. -/
  held : segHolds cfg w=true → io.res.textSeq=w.io.seg.seq ∧ io.res.textOff=0 ∧ io.res.textLen=w.io.seg.dataLen

/-- The report of the seventh check alone. -/
def textReport : TextCore :=
  if segTakes cfg w then ⟨w.io.vars.rcvNxt+fitting (viewed w),w.io.vars.rcvWnd-fitting (viewed w),w.io.vars.rcvNxt,
    (textGap (viewed w)).setWidth 16,(fitting (viewed w)).setWidth 16,true,false,false⟩
  else if segHolds cfg w then ⟨w.io.vars.rcvNxt,w.io.vars.rcvWnd,w.io.seg.seq,0,w.io.seg.dataLen,false,true,false⟩
  else textCore (opened w)

theorem segTaken_eq : segTaken cfg w=if segTakes cfg w then fitting (viewed w) else 0 := by
  unfold segTaken segTakes taken
  cases reachesText cfg w <;> cases takes (viewed w) <;> rfl

theorem segTaken_le : segTaken cfg w≤w.io.vars.rcvWnd := by
  cases ht : segTakes cfg w with
  | true => exact BitVec.le_def.2 (segTakes_bounds cfg w ht).1
  | false =>
    rw [segTaken_eq,ht]
    exact BitVec.le_def.2 (Nat.zero_le _)

theorem segTakes_not_segHolds (h : segTakes cfg w) : segHolds cfg w=false := by
  simp only [segTakes,Bool.and_eq_true] at h
  rw [segHolds,takes_not_holds (viewed w) h.2,Bool.and_false]

theorem received_of_core {io : Io} (h : textCore io=
      if segFin cfg w then {textReport cfg w with rcvNxt := w.io.vars.rcvNxt+segTaken cfg w+1,closing := true}
      else textReport cfg w) : Received cfg w io := by
  have hsm := segTaken_eq cfg w
  have hex := segTakes_not_segHolds cfg w
  have hfl : (textReport cfg w).text=segTakes cfg w ∧ (textReport cfg w).hold=segHolds cfg w ∧
      (textReport cfg w).closing=false := by
    unfold textReport
    cases hT : segTakes cfg w with
    | true => exact ⟨rfl,(hex hT).symm,rfl⟩
    | false => cases segHolds cfg w <;> exact ⟨rfl,rfl,rfl⟩
  have he : (textReport cfg w).rcvNxt=w.io.vars.rcvNxt+segTaken cfg w ∧
      (textReport cfg w).rcvWnd=w.io.vars.rcvWnd-segTaken cfg w := by
    rw [hsm]
    unfold textReport
    cases segTakes cfg w with
    | true => exact ⟨rfl,rfl⟩
    | false =>
      simp only [Bool.false_eq_true,if_false,add_zero,sub_zero]
      cases segHolds cfg w <;> exact ⟨rfl,rfl⟩
  have ht : segTakes cfg w → (textReport cfg w).textSeq=w.io.vars.rcvNxt ∧
      (textReport cfg w).textOff=(textGap (viewed w)).setWidth 16 ∧
      (textReport cfg w).textLen=(segTaken cfg w).setWidth 16 := by
    intro hT
    rw [hsm]
    unfold textReport
    rw [hT]
    exact ⟨rfl,rfl,rfl⟩
  have hh : segHolds cfg w → (textReport cfg w).textSeq=w.io.seg.seq ∧ (textReport cfg w).textOff=0 ∧
      (textReport cfg w).textLen=w.io.seg.dataLen := by
    intro hH
    have hT : segTakes cfg w=false := by
      cases hT : segTakes cfg w with
      | false => rfl
      | true => exact absurd (hex hT) (by rw [hH]; decide)
    unfold textReport
    rw [hT,hH]
    exact ⟨rfl,rfl,rfl⟩
  -- a FIN moves RCV.NXT and is reported, and that is all
  have hk : ∀ {β : Type} (f : TextCore → β),(∀ c n b,f {c with rcvNxt := n,closing := b}=f c) →
      f (textCore io)=f (textReport cfg w) := by
    intro β f hf
    rw [h]
    split_ifs
    · exact hf ..
    · rfl
  have hfn : (textCore io).rcvNxt=w.io.vars.rcvNxt+segTaken cfg w+(if segFin cfg w then 1 else 0) ∧
      (textCore io).closing=segFin cfg w := by
    rw [h]
    cases segFin cfg w with
    | true => exact ⟨rfl,rfl⟩
    | false => exact ⟨he.1.trans (add_zero _).symm,hfl.2.2⟩
  have hs := hk TextCore.textSeq fun _ _ _ => rfl
  have ho := hk textOff fun _ _ _ => rfl
  have hl := hk textLen fun _ _ _ => rfl
  refine ⟨hfn.1,(hk rcvWnd fun _ _ _ => rfl).trans he.2,
    ⟨(hk text fun _ _ _ => rfl).trans hfl.1,(hk hold fun _ _ _ => rfl).trans hfl.2.1,hfn.2⟩,
    fun hT => ?_,fun hH => ?_⟩
  · exact ⟨hs.trans (ht hT).1,ho.trans (ht hT).2.1,hl.trans (ht hT).2.2⟩
  · exact ⟨hs.trans (hh hH).1,ho.trans (hh hH).2.1,hl.trans (hh hH).2.2⟩

theorem segment_received : Received cfg w (segment cfg w).io := by
  rcases segment_reaches cfg w with ⟨hr,he⟩|⟨hr,hc⟩
  · have hall := hr
    simp only [reachesText,Bool.and_eq_true,Bool.not_eq_true'] at hall
    have hsyn : hasBit w.io.seg.flags tcpSyn=false := hall.1.1.2
    obtain ⟨hseg,hcr,-⟩ := atText_reads cfg w hall.2
    obtain ⟨hgap,ht,hh,hfit,hfin⟩ := atText_decides cfg w hall.2
    have htk : taken (atText cfg w)=segTaken cfg w := by
      unfold segTaken taken
      rw [ht,hfit,if_pos hr]
    have hT : segTakes cfg w=takes (viewed w) := by rw [segTakes,hr,Bool.true_and]
    have hH : segHolds cfg w=holds (viewed w) := by rw [segHolds,hr,Bool.true_and]
    have hF : segFin cfg w=takesFin (viewed w) := by rw [segFin,hr,Bool.true_and]
    have hn : (atText cfg w).vars.rcvNxt=w.io.vars.rcvNxt := congrArg rcvNxt hcr
    have hw : (atText cfg w).vars.rcvWnd=w.io.vars.rcvWnd := congrArg rcvWnd hcr
    have hts : textSeq (atText cfg w)=w.io.seg.seq := by
      rw [textSeq_plain (by rw [hseg]; exact hsyn),hseg]
    have hold : (atText cfg w).res.act.hold=false := congrArg hold hcr
    have htx : (atText cfg w).res.act.text=false := congrArg text hcr
    have hcl : (atText cfg w).res.act.closing=false := congrArg closing hcr
    have hout := checkTextFin_textCore (atText cfg w) cfg hold
    rw [checkText_textCore,htk,ht,hh,hfin,hfit,hgap,hn,hw,hts,hseg,hcr,hold,htx,hcl,← hT,←hH,←hF] at hout
    rw [he]
    exact received_of_core cfg w hout
  · have hT : segTakes cfg w=false := by rw [segTakes,hr,Bool.false_and]
    have hH : segHolds cfg w=false := by rw [segHolds,hr,Bool.false_and]
    have hF : segFin cfg w=false := by rw [segFin,hr,Bool.false_and]
    refine received_of_core cfg w ?_
    unfold textReport
    rw [hc,hT,hH,hF]
    rfl

end Segment

section SynSent

variable (cfg : Config)

/-- Whether a segment opens SYN-SENT and ends it: it answers the SYN, and its FIN counts as all its text fits. -/
def opensClosing (w : Work) : Bool :=
  w.ctx.ready && w.io.state==.synSent && !hasBit w.io.seg.flags tcpRst && hasBit w.io.seg.flags tcpSyn &&
    hasBit w.io.seg.flags tcpFin && w.io.seg.dataLen.setWidth 32≤w.io.vars.rcvWnd &&
    match synSentAck w.io with
    | none => false
    | some ackOk => (if ackOk then w.io.seg.ack else w.io.vars.sndUna)-w.io.vars.iss != 0

theorem hasBit_or {n : ℕ} {x m k : BitVec n} (h : hasBit x m) : hasBit x (m ||| k) := by
  simp only [hasBit,bne_iff_ne,ne_eq] at h ⊢
  intro hz
  apply h
  rw [BitVec.and_or_distrib_left] at hz
  exact (BitVec.or_eq_zero_iff.1 hz).1

/-- Text of a SYN begins at RCV.NXT, so all that fits is taken and the FIN counts when that is all. -/
theorem takesFin_syn {io : Io} (hsy : hasBit io.seg.flags tcpSyn) (hn : io.vars.rcvNxt=io.seg.seq+1)
    (hs : io.state=.established) :
    takesFin io=(hasBit io.seg.flags tcpFin && io.seg.dataLen.setWidth 32 ≤ io.vars.rcvWnd) := by
  have hts : textSeq io=io.vars.rcvNxt := by
    unfold textSeq
    rw [hsy,hn]
    rfl
  have hg : textGap io=0 := by
    unfold textGap tcpInFrom
    rw [hts,sub_self]
  have hh : holds io=false := by
    unfold holds
    rw [hts]
    simp [tcpInFrom]
  have ht : taken io=if io.vars.rcvWnd < io.seg.dataLen.setWidth 32 then io.vars.rcvWnd
      else io.seg.dataLen.setWidth 32 := by
    unfold taken takes fitting
    rw [hg,hs,sub_zero]
    by_cases hd : io.seg.dataLen=0
    · rw [hd]
      simp [takesText]
    · rw [if_pos (by simp [takesText]; bv_omega)]
  unfold takesFin
  rw [hh,hts,ht]
  cases hasBit io.seg.flags tcpFin with
  | false => rfl
  | true =>
    by_cases hw : io.vars.rcvWnd < io.seg.dataLen.setWidth 32
    · have hne : io.vars.rcvNxt+io.vars.rcvWnd≠io.vars.rcvNxt+io.seg.dataLen.setWidth 32 := by
        intro he
        rw [add_left_cancel he] at hw
        exact BitVec.lt_irrefl _ hw
      rw [if_pos hw,beq_eq_false_iff_ne.2 hne,decide_eq_false (BitVec.not_le.2 hw)]
      rfl
    · rw [if_neg hw,decide_eq_true (BitVec.not_lt.1 hw),beq_self_eq_true]
      rfl

/-- The block of an answer that acknowledges the SYN. -/
def entered (io : Io) : Io :=
  putAck {io with
    state := .established
    res := {io.res with act := {io.res.act with established := true}}}

theorem synSentEnter_cases {io : Io} : io.vars.sndUna-io.vars.iss=0 ∧ synSentEnter cfg io=putSynAck io ∨
      io.vars.sndUna-io.vars.iss≠0 ∧ ((io.seg.dataLen≠0 ∨ hasBit io.seg.flags (tcpFin ||| tcpUrg)) ∧
            synSentEnter cfg io=checkTextFin cfg (checkUrg (entered io)) ∨
          ¬(io.seg.dataLen≠0 ∨ hasBit io.seg.flags (tcpFin ||| tcpUrg)) ∧ synSentEnter cfg io=entered io) := by
  unfold synSentEnter tcpInFrom
  by_cases hu : io.vars.sndUna-io.vars.iss=0
  · exact .inl ⟨hu,if_neg (not_not.2 hu)⟩
  refine .inr ⟨hu,?_⟩
  rw [if_pos hu]
  by_cases hg : io.seg.dataLen≠0 ∨ hasBit io.seg.flags (tcpFin ||| tcpUrg)
  · exact .inl ⟨hg,if_pos hg⟩
  · exact .inr ⟨hg,if_neg hg⟩

/-- Past the answer to the SYN the connection is established, and a FIN may end it at once. -/
theorem synSentEnter_state {io : Io} (hsyn : hasBit io.seg.flags tcpSyn)
    (hn : io.vars.rcvNxt=io.seg.seq+1) (hh : io.res.act.hold=false) : (synSentEnter cfg io).state=
      if io.vars.sndUna-io.vars.iss=0 then .synReceived
      else if hasBit io.seg.flags tcpFin && io.seg.dataLen.setWidth 32 ≤ io.vars.rcvWnd then .closeWait
      else .established := by
  rcases synSentEnter_cases cfg with ⟨hu,he⟩|⟨hu,⟨-,he⟩|⟨hg,he⟩⟩
  · rw [he,if_pos hu]
    rfl
  · rw [if_neg hu]
    have hq : Quiet (entered io) (checkUrg (entered io)) := checkUrg_quiet (entered io)
    have hst : (checkUrg (entered io)).state=.established := checkUrg_state (entered io)
    have hseg : (checkUrg (entered io)).seg=io.seg := hq.seg
    have hnxt : (checkUrg (entered io)).vars.rcvNxt=io.vars.rcvNxt := congrArg rcvNxt hq.text
    have hwnd : (checkUrg (entered io)).vars.rcvWnd=io.vars.rcvWnd := congrArg rcvWnd hq.text
    have hold : (checkUrg (entered io)).res.act.hold=false := (congrArg hold hq.text).trans hh
    rw [he,checkTextFin_state _ hold,takesFin_syn (by rw [hseg]; exact hsyn) (by rw [hseg,hnxt]; exact hn) hst,hseg,
      hwnd,hst]
    rfl
  · -- nothing but the SYN, and in particular no FIN
    have hf : hasBit io.seg.flags tcpFin=false := by
      by_contra hf
      exact hg (.inr (hasBit_or (by simpa using hf)))
    rw [he,if_neg hu,hf]
    rfl

theorem synSentVars_parts (io : Io) (ackOk : Bool) : let out := synSentVars io ackOk
    out.seg=io.seg ∧ out.vars.rcvNxt=io.seg.seq+1 ∧ out.vars.rcvWnd=io.vars.rcvWnd ∧ out.vars.iss=io.vars.iss ∧
      out.vars.sndUna=(if ackOk then io.seg.ack else io.vars.sndUna) ∧
      out.res.act.hold=io.res.act.hold ∧ out.res.act.closing=io.res.act.closing := by
  unfold synSentVars setSndWnd raiseMaxSndWnd
  cases ackOk <;> dsimp only <;> split_ifs <;> exact ⟨rfl,rfl,rfl,rfl,rfl,rfl,rfl⟩

/-- The SYN that SYN-SENT takes in, with whether its ACK answers ours. -/
def takesSyn (w : Work) : Option Bool :=
  if w.ctx.ready && w.io.state==.synSent && !hasBit w.io.seg.flags tcpRst && hasBit w.io.seg.flags tcpSyn then
    synSentAck w.io
  else none

theorem takesSyn_some {w : Work} {ackOk : Bool} (h : takesSyn w=some ackOk) :
    w.io.state=.synSent ∧ hasBit w.io.seg.flags tcpSyn ∧
      opensClosing w=(hasBit w.io.seg.flags tcpFin && w.io.seg.dataLen.setWidth 32≤w.io.vars.rcvWnd &&
        (if ackOk then w.io.seg.ack else w.io.vars.sndUna)-w.io.vars.iss != 0) := by
  unfold takesSyn at h
  split_ifs at h with hg
  have hgr := hg
  simp only [Bool.and_eq_true,beq_iff_eq] at hgr
  refine ⟨hgr.1.1.2,hgr.2,?_⟩
  rw [opensClosing,hg,h,Bool.true_and]

theorem takesSyn_none {w : Work} (h : takesSyn w=none) : opensClosing w=false := by
  unfold takesSyn at h
  unfold opensClosing
  split_ifs at h with hg
  · rw [h,Bool.and_false]
  · rw [Bool.eq_false_of_not_eq_true hg]
    rfl

/-- Every way through SYN-SENT: a SYN is taken in, or nothing is acknowledged and at most the connection is reset. -/
theorem synSent_cases {w : Work} :
    (∃ ackOk,takesSyn w=some ackOk ∧ (synSent cfg w).io=synSentEnter cfg (synSentVars (begun w) ackOk)) ∨
      takesSyn w=none ∧ (synSent cfg w).io.res.act.closing=false ∧ (synSent cfg w).io.res.act.ack=false ∧
        ((synSent cfg w).io.state=w.io.state ∨ w.io.state=.synSent ∧ (synSent cfg w).io.state=.closed) := by
  unfold synSent takesSyn
  by_cases hg : (!w.ctx.ready || decide (w.io.state≠.synSent))
  · have hno : (w.ctx.ready && w.io.state==.synSent)=false := by
      cases hr : w.ctx.ready <;> simp_all
    rw [if_pos hg,hno]
    exact .inr ⟨rfl,rfl,rfl,.inl rfl⟩
  have hw : w.ctx.ready ∧ w.io.state=.synSent := by simpa using hg
  have ha : synSentAck (begun w)=synSentAck w.io := rfl
  rw [if_neg hg,ha,hw.1,hw.2]
  cases synSentAck w.io with
  | none =>
    refine .inr ⟨by split_ifs <;> rfl,?_⟩
    dsimp only
    split_ifs <;> exact ⟨rfl,rfl,.inl hw.2⟩
  | some ackOk =>
    have hs : (begun w).seg=w.io.seg := rfl
    dsimp only
    unfold synSentBody
    rw [hs]
    cases hasBit w.io.seg.flags tcpRst with
    | true =>
      cases ackOk with
      | false => exact .inr ⟨rfl,rfl,rfl,.inl hw.2⟩
      | true => exact .inr ⟨rfl,rfl,rfl,.inr ⟨rfl,rfl⟩⟩
    | false =>
      cases hasBit w.io.seg.flags tcpSyn with
      | false => exact .inr ⟨rfl,rfl,rfl,.inl hw.2⟩
      | true => exact .inl ⟨ackOk,rfl,rfl⟩

/-- The tables permit what SYN-SENT asks for, unless the segment opens and ends the connection. -/
theorem synSent_transition (w : Work) : TcpPcb.transitionOk w.io.state (synSent cfg w).io.state= !opensClosing w := by
  rcases synSent_cases cfg with ⟨ackOk,ht,he⟩|⟨ht,-,-,hst⟩
  · obtain ⟨hs,hsy,hop⟩ := takesSyn_some ht
    obtain ⟨hsg,hn,hw,hi,hun,hh,-⟩ := synSentVars_parts (begun w) ackOk
    have hst := synSentEnter_state cfg (by rw [hsg]; exact hsy) (by rw [hn,hsg]) hh
    rw [hsg,hw,hi,hun] at hst
    change _=(if (if ackOk then w.io.seg.ack else w.io.vars.sndUna)-w.io.vars.iss=0 then
      TcpState.synReceived else if hasBit w.io.seg.flags tcpFin && w.io.seg.dataLen.setWidth 32≤w.io.vars.rcvWnd then
      .closeWait else .established) at hst
    rw [he,hst,hs,hop]
    by_cases hu : (if ackOk then w.io.seg.ack else w.io.vars.sndUna)-w.io.vars.iss=0
    · rw [if_pos hu,hu,bne_self_eq_false,Bool.and_false]
      rfl
    · rw [if_neg hu,bne_iff_ne.2 hu,Bool.and_true]
      cases hasBit w.io.seg.flags tcpFin && w.io.seg.dataLen.setWidth 32≤w.io.vars.rcvWnd <;> rfl
  · rw [takesSyn_none ht]
    rcases hst with hst|⟨hs,hst⟩
    · rw [hst]
      exact transition_ack_fin (mem_ackNext_self) (mem_finNext_self)
    · rw [hs,hst]
      rfl

end SynSent

section Fin

variable (cfg : Config)

/-- States behind the peer's FIN. -/
def finSeen : TcpState → Bool
  | .closeWait | .closing | .lastAck | .timeWait => true
  | _ => false

theorem finTo_finSeen (acked : Bool) {s : TcpState} (h : 3 ≤ s.rank) : finSeen (finTo acked s) := by
  revert h
  cases s <;> cases acked <;> decide

theorem checkTextFin_finSeen {io : Io} (hh : io.res.act.hold=false) (hc : io.res.act.closing=false)
    (hr : 3 ≤ io.state.rank) (h : (checkTextFin cfg io).res.act.closing) : finSeen (checkTextFin cfg io).state := by
  have hcr : (checkText io).res.act.closing=false := by
    have ht : (checkText io).res.act.closing=_ := congrArg closing (checkText_textCore io)
    rw [ht]
    split_ifs <;> exact hc
  have hf : takesFin io := by
    by_contra hn
    have ht : (checkTextFin cfg io).res.act.closing=_ := congrArg closing (checkTextFin_textCore io cfg hh)
    rw [if_neg hn] at ht
    rw [ht] at h
    exact absurd (hcr.symm.trans h) (by decide)
  rw [checkTextFin_state io hh,if_pos hf]
  exact finTo_finSeen _ hr

theorem segment_finSeen (w : Work) (h : (segment cfg w).io.res.act.closing) : finSeen (segment cfg w).io.state := by
  rcases segment_reaches cfg w with ⟨hr,he⟩|⟨hr,hc⟩
  · simp only [reachesText,Bool.and_eq_true,decide_eq_true_eq] at hr
    have hrn : 3≤w.io.state.rank := hr.1.1.1.1.1.2
    have hp := hr.2
    simp only [ackPasses,Bool.and_eq_true,Bool.not_eq_true'] at hp
    obtain ⟨-,hcr,-⟩ := atText_reads cfg w hr.2
    have hm : (atText cfg w).state∈ackNext w.io.state := by
      have ha := checkAck_mem cfg (judged cfg w)
      rw [(judged_parts cfg w).2.2.1] at ha
      unfold atText
      rw [checkUrg_state]
      exact ha
    have hat : 3≤(atText cfg w).state.rank := by
      have hs := hp.2
      revert hm hrn hs
      generalize (atText cfg w).state=t
      cases w.io.state <;> cases t <;> decide
    rw [he] at h ⊢
    exact checkTextFin_finSeen cfg (congrArg hold hcr) (congrArg closing hcr) hat h
  · have ht : (segment cfg w).io.res.act.closing=false := congrArg closing hc
    rw [ht] at h
    cases h

theorem synSentEnter_finSeen {io : Io} (hh : io.res.act.hold=false) (hc : io.res.act.closing=false)
    (h : (synSentEnter cfg io).res.act.closing) : finSeen (synSentEnter cfg io).state := by
  have hp : ∀ x : Io,synSentEnter cfg io=x → x.res.act.closing=io.res.act.closing →
      finSeen (synSentEnter cfg io).state := by
    intro x he hx
    rw [he,hx,hc] at h
    cases h
  rcases synSentEnter_cases cfg with ⟨-,he⟩|⟨-,⟨-,he⟩|⟨-,he⟩⟩
  · exact hp _ he rfl
  · have hq : Quiet (entered io) (checkUrg (entered io)) := checkUrg_quiet (entered io)
    rw [he] at h ⊢
    refine checkTextFin_finSeen cfg ((congrArg hold hq.text).trans hh) ((congrArg closing hq.text).trans hc) ?_ h
    rw [checkUrg_state]
    show 3≤TcpState.rank .established
    decide
  · exact hp _ he rfl

theorem synSent_finSeen (w : Work) (h : (synSent cfg w).io.res.act.closing) : finSeen (synSent cfg w).io.state := by
  rcases synSent_cases cfg with ⟨ackOk,-,he⟩|⟨-,hno,-⟩
  · obtain ⟨-,-,-,-,-,hh,hc⟩ := synSentVars_parts (begun w) ackOk
    rw [he] at h ⊢
    exact synSentEnter_finSeen cfg hh hc h
  · rw [hno] at h
    cases h

theorem segTaken_finSeen {w : Work} (h : finSeen w.io.state) : segTaken cfg w=0 := by
  have ht : takes (viewed w)=false := by
    unfold takes viewed
    revert h
    cases w.io.state <;> simp [finSeen,takesText]
  rw [segTaken_eq,segTakes,ht,Bool.and_false]
  rfl

/-- Whether a segment brings a FIN at RCV.NXT to CLOSE-WAIT. -/
def refins (w : Work) : Bool :=
  w.io.state==.closeWait && reachesText cfg w && hasBit w.io.seg.flags tcpFin &&
    w.io.vars.rcvNxt==w.io.seg.seq+w.io.seg.dataLen.setWidth 32

theorem segFin_finSeen {w : Work} (h : finSeen w.io.state) : segFin cfg w=refins cfg w := by
  unfold segFin refins
  cases hr : reachesText cfg w with
  | false => simp
  | true =>
    have ha := hr
    simp only [reachesText,ackPasses,Bool.and_eq_true,Bool.not_eq_true'] at ha
    have hs : w.io.state=.closeWait := by
      have hst := ha.2.2
      revert h hst
      cases w.io.state <;> decide
    have hv : (viewed w)=w.io := by
      unfold viewed
      rw [if_neg (by rw [hs]; decide)]
    have hts : textSeq w.io=w.io.seg.seq := textSeq_plain ha.1.1.2
    have ht : takes w.io=false := by simp [takes,hs,takesText]
    have hh : holds w.io=false := by simp [holds,hs,takesText]
    unfold takesFin taken
    rw [hv,hh,ht,hts,hs]
    simp

end Fin

end Text

end IdemIp.TcpIn
