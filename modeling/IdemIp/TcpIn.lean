import IdemIp.Config
import IdemIp.Checksum

/-!
# RFC 9293 sec 3.10.7 SEGMENT ARRIVES

The operand block, the throttle context and every check of `tcp_in.c`, each as
a function of the block it is handed. A check that can stop the processing
returns that decision beside the block. `idemip_tcp_in_parse` fills the block
from the octets of a segment whose lengths and checksum are right.
-/

namespace IdemIp.TcpIn

section Checks

variable (cfg : Config)

/-- The parsed segment, `TcpInSegArgs`. -/
structure SegArgs where
  (seq ack wnd len : BitVec 32)
  (dataLen up : BitVec 16)
  flags : BitVec 8
deriving DecidableEq

/-- A segment of all-zero fields. -/
def SegArgs.zero : SegArgs := ⟨0,0,0,0,0,0,0⟩

/-- Options a parse found, `TcpInOpts`; the `present` bits are one flag each. -/
structure Opts where
  (tsval tsecr : BitVec 32)
  (mss hdrLen : BitVec 16)
  (mssPresent wsPresent tsPresent sackPermPresent : Bool)
  ws : BitVec 8
deriving DecidableEq

def Opts.zero : Opts := ⟨0,0,0,0,false,false,false,false,0⟩

/-- The segment to send back, `TcpInReply`. -/
structure Reply where
  (seq ack : BitVec 32)
  flags : BitVec 8
deriving DecidableEq

/-- The `IDEMIP_TCP_IN_ACT_*` bits, one flag each. -/
structure Act where
  (ack rst text push urgent closing reset refused established listen delete : Bool)
  /-- The retransmission queue is to be flushed. -/
  (flush acked hold twoMsl dupack wnd challenge throttled paws : Bool)
deriving DecidableEq

def Act.none : Act :=
  ⟨false,false,false,false,false,false,false,false,false,false,false,false,false,false,false,false,false,false,false,false⟩

/-- What a call decided, `TcpInResult`. -/
structure Result where
  act : Act
  (acked textSeq : BitVec 32)
  /-- Data octets before it in the segment. -/
  (textOff textLen : BitVec 16)
  acceptable : Bool
deriving DecidableEq

/-- The operand block of the segment checks, `TcpInIo` without the parse operands. -/
structure Io where
  seg : SegArgs
  vars : TcpVars
  ctl : TcpPcbCtl
  state : TcpState
  /-- The listener the connection came through, or `noneIndex`. -/
  listener : ℕ
  nowMs : BitVec 32
  status : Status
  opts : Opts
  reply : Reply
  res : Result
deriving DecidableEq

/-- The unit's context, `TcpInCtx`: the mark `clear` leaves and RFC 5961 sec 7's throttle. -/
structure Ctx where
  /-- `clear` has run. -/
  ready : Bool
  (challengeAt challenges : BitVec 32)
deriving DecidableEq

/-- One borrow of the unit: operand block and context. -/
structure Work where
  io : Io
  ctx : Ctx
deriving DecidableEq

variable (w : Work) (io : Io)

/-- Distance forward from an edge, modulo 2^32. -/
def tcpInFrom (seq edge : BitVec 32) : BitVec 32 := seq-edge

/-- SND.UNA < SEG.ACK =< SND.NXT. -/
def ackNew (ack una nxt : BitVec 32) : Bool :=
  tcpInFrom ack una != 0 && tcpInFrom ack una≤tcpInFrom nxt una

/-- SND.UNA =< SEG.ACK =< SND.NXT. -/
def ackWithin (ack una nxt : BitVec 32) : Bool := tcpInFrom ack una≤tcpInFrom nxt una

/-- RFC 5961 sec 5.2's range, measured from its left edge. -/
def ackInRange (ack una nxt maxSndWnd : BitVec 32) : Bool :=
  let left := una-maxSndWnd
  tcpInFrom ack left≤tcpInFrom nxt left

/-- RFC 9293 sec 3.10.7.4 Table 6. -/
def segAcceptable (seq len rcvNxt rcvWnd : BitVec 32) : Bool :=
  if len=0 then
    if rcvWnd=0 then seq==rcvNxt else tcpInFrom seq rcvNxt < rcvWnd
  else if rcvWnd=0 then false
  else if tcpInFrom seq rcvNxt < rcvWnd then true
  else tcpInFrom (seq+len-1) rcvNxt < rcvWnd

/-- RFC 7323 sec 5.2's order on timestamps. -/
def tsLt (s t : BitVec 32) : Bool :=
  let d := tcpInFrom t s
  d != 0 && d<0x80000000

/-- RFC 5961 sec 3.2's span, open at both ends. -/
def rstInWindow (seq rcvNxt rcvWnd : BitVec 32) : Bool :=
  let at' := tcpInFrom seq rcvNxt
  at' != 0 && at' < rcvWnd

/-- The plain acknowledgment, which Last.ACK.sent follows. -/
def putAck : Io :=
  { io with
    reply := ⟨io.vars.sndNxt,io.vars.rcvNxt,tcpAck⟩
    res := { io.res with act := { io.res.act with ack := true } }
    ctl := { io.ctl with lastAckSent := io.vars.rcvNxt } }

/-- The reset of RFC 9293 sec 3.5.2 group 2. -/
def putRst : Io :=
  { io with
    reply :=
      if hasBit io.seg.flags tcpAck then ⟨io.seg.ack,0,tcpRst⟩
      else ⟨0,io.seg.seq+io.seg.len,tcpRst ||| tcpAck⟩
    res := { io.res with act := { io.res.act with rst := true } } }

/-- The reset `<SEQ=SEG.ACK><CTL=RST>` several checks form in place. -/
def putAckRst : Io :=
  { io with
    reply := ⟨io.seg.ack,0,tcpRst⟩
    res := { io.res with act := { io.res.act with rst := true } } }

/-- A challenge acknowledgment under RFC 5961 sec 7's throttle. -/
def putChallenge : Work :=
  let io := { w.io with res := { w.io.res with act := { w.io.res.act with challenge := true } } }
  let ctx :=
    if cfg.tcpChallengeWindowMs≤tcpInFrom io.nowMs w.ctx.challengeAt then
      { w.ctx with challengeAt := io.nowMs, challenges := 0 }
    else w.ctx
  if cfg.tcpChallengeAcks ≤ ctx.challenges then
    ⟨{ io with res := { io.res with act := { io.res.act with throttled := true } } },ctx⟩
  else ⟨putAck io,{ ctx with challenges := ctx.challenges+1 }⟩

/-- The 2 MSL timeout, from now. -/
def put2msl : Io :=
  { io with
    res := { io.res with act := { io.res.act with twoMsl := true } }
    ctl := { io.ctl with timeWaitDeadline := io.nowMs+2*cfg.tcpMslMs } }

/-- The result members before a call decides anything. -/
def resultClear : Io :=
  { io with reply := ⟨0,0,0⟩, res := ⟨Act.none,0,0,0,0,false⟩ }

/-- The block an entry starts from: results cleared, the outcome still a refusal. -/
def opened : Io := resultClear { w.io with status := .err }

/-- The block an entry works on once it accepts the call. -/
def begun : Io := { opened w with status := .ok }

/-- A window taken from the peer raises MAX.SND.WND. -/
def raiseMaxSndWnd : Io :=
  if io.ctl.maxSndWnd < io.seg.wnd then { io with ctl := { io.ctl with maxSndWnd := io.seg.wnd } } else io

/-- The window a segment carries becomes the send window. -/
def setSndWnd : Io :=
  raiseMaxSndWnd { io with vars := { io.vars with
    sndWnd := io.seg.wnd
    sndWl1 := io.seg.seq
    sndWl2 := io.seg.ack } }

/-- SND.UNA advances to SEG.ACK, and the advance is reported. -/
def advanceUna : Io :=
  { io with
    res := { io.res with
      acked := tcpInFrom io.seg.ack io.vars.sndUna
      act := { io.res.act with acked := true } }
    vars := { io.vars with sndUna := io.seg.ack } }

/-- `idemip_tcp_in_clear`. -/
def clear : Work :=
  ⟨{ resultClear { w.io with seg := .zero, opts := .zero } with status := .ok },⟨true,0,0⟩⟩

/-- `idemip_tcp_in_acceptable`. -/
def acceptable (w : Work) : Work :=
  if w.ctx.ready then
    { w with io := { begun w with res := { (begun w).res with
      acceptable := segAcceptable w.io.seg.seq w.io.seg.len w.io.vars.rcvNxt w.io.vars.rcvWnd } } }
  else { w with io := opened w }

/-- `idemip_tcp_in_closed`. -/
def closed : Work :=
  if w.ctx.ready then
    { w with io := if hasBit w.io.seg.flags tcpRst then begun w else putRst (begun w) }
  else { w with io := opened w }

/-- The SYN,ACK that enters SYN-RECEIVED. -/
def putSynAck : Io :=
  { io with
    state := .synReceived
    reply := ⟨io.vars.iss,io.vars.rcvNxt,tcpSyn ||| tcpAck⟩
    res := { io.res with act := { io.res.act with ack := true } }
    ctl := { io.ctl with lastAckSent := io.vars.rcvNxt } }

/-- The variables RFC 9293 sec 3.10.7.2 third sets from the SYN. -/
def listenVars : Io :=
  raiseMaxSndWnd { io with vars := { io.vars with
    rcvNxt := io.seg.seq+1
    irs := io.seg.seq
    sndNxt := io.vars.iss+1
    sndUna := io.vars.iss
    sndWnd := io.seg.wnd
    sndWl1 := io.seg.seq
    sndWl2 := io.vars.iss } }

/-- `idemip_tcp_in_listen`. -/
def listen : Work :=
  if !w.ctx.ready || w.io.state≠.listen then { w with io := opened w }
  else if hasBit w.io.seg.flags tcpRst then { w with io := begun w }
  else if hasBit w.io.seg.flags tcpAck then { w with io := putAckRst (begun w) }
  else if hasBit w.io.seg.flags tcpSyn then { w with io := putSynAck (listenVars (begun w)) }
  else { w with io := begun w }

/-- TS.Recent and its instant take the segment's timestamp. -/
def saveTs : Io :=
  { io with ctl := { io.ctl with tsRecent := io.opts.tsval, tsRecentMs := io.nowMs } }

/-- RFC 7323 sec 5.3's R1 and R3; true when R1 rejects the segment. -/
def paws : Bool × Io :=
  if !hasBit io.ctl.flags ctlTsOk || !io.opts.tsPresent then (false,io)
  else if tsLt io.opts.tsval io.ctl.tsRecent && !hasBit io.seg.flags tcpRst then
    if tcpInFrom io.nowMs io.ctl.tsRecentMs ≤ cfg.tcpTsRecentMaxMs then (true,io)
    else (false,saveTs io)
  else if !tsLt io.opts.tsval io.ctl.tsRecent && tcpInFrom io.ctl.lastAckSent io.seg.seq<0x80000000 then
    (false,saveTs io)
  else (false,io)

/-- The states whose peer may still send text: ESTABLISHED, FIN-WAIT-1, FIN-WAIT-2. -/
def takesText : TcpState → Bool
  | .established | .finWait1 | .finWait2 => true
  | _ => false

/-- The sixth check, the URG bit. -/
def checkUrg : Io :=
  if !hasBit io.seg.flags tcpUrg then io
  else if !takesText io.state then io
  else
    let up := io.seg.seq+io.seg.up.setWidth 32
    let cur := tcpInFrom io.vars.rcvUp io.vars.rcvNxt
    let at' := tcpInFrom up io.vars.rcvNxt
    if at'=0 ∨ 0x80000000≤at' then io
    else if 0x80000000 ≤ cur ∨ cur<at' then
      { io with
        vars := { io.vars with rcvUp := up }
        res := { io.res with act := { io.res.act with urgent := true } } }
    else io

/-- Number of the first data octet, past a SYN. -/
def textSeq : BitVec 32 := io.seg.seq+if hasBit io.seg.flags tcpSyn then 1 else 0

/-- The arm of the seventh check for text that does not begin at or before RCV.NXT. -/
def holdText : Io :=
  let seq := textSeq io
  if tcpInFrom seq io.vars.rcvNxt≠0 ∧ tcpInFrom seq io.vars.rcvNxt < io.vars.rcvWnd then
    { io with res := { io.res with
      textSeq := seq
      textOff := 0
      textLen := io.seg.dataLen
      act := { io.res.act with hold := true } } }
  else io

/-- The arm of the seventh check that takes text at RCV.NXT, `off` octets into the segment. -/
def takeText (off : BitVec 32) : Io :=
  let avail := io.seg.dataLen.setWidth 32-off
  let avail := if io.vars.rcvWnd<avail then io.vars.rcvWnd else avail
  { io with
    res := { io.res with
      textSeq := io.vars.rcvNxt
      textOff := off.setWidth 16
      textLen := avail.setWidth 16
      act := { io.res.act with
        text := true
        push := io.res.act.push || hasBit io.seg.flags tcpPsh } }
    vars := { io.vars with
      rcvNxt := io.vars.rcvNxt+avail
      rcvWnd := io.vars.rcvWnd-avail } }

/-- The seventh check, the segment text. -/
def checkText : Io :=
  if io.seg.dataLen=0 then io
  else if !takesText io.state then io
  else
    let off := tcpInFrom io.vars.rcvNxt (textSeq io)
    if io.seg.dataLen.setWidth 32≤off then putAck (holdText io) else putAck (takeText io off)

/-- The state a consumed FIN leads to. -/
def finState : Io :=
  match io.state with
  | .synReceived | .established => { io with state := .closeWait }
  | .finWait1 =>
    if io.vars.sndUna=io.vars.sndNxt then put2msl cfg { io with state := .timeWait }
    else { io with state := .closing }
  | .finWait2 => put2msl cfg { io with state := .timeWait }
  | .timeWait => put2msl cfg io
  | _ => io

/-- RCV.NXT advances over the FIN, which is acknowledged. -/
def takeFin : Io :=
  putAck { io with
    vars := { io.vars with rcvNxt := io.vars.rcvNxt+1 }
    res := { io.res with act := { io.res.act with closing := true } } }

/-- The eighth check, the FIN bit. -/
def checkFin : Io :=
  if !hasBit io.seg.flags tcpFin then io
  else if io.vars.rcvNxt≠textSeq io+io.seg.dataLen.setWidth 32 then io
  else finState cfg (takeFin io)

/-- The seventh and eighth checks; a held segment's FIN waits with it. -/
def checkTextFin : Io :=
  let io := checkText io
  if io.res.act.hold then io else checkFin cfg io

/-- The first check of SYN-SENT: `some` of whether the ACK is acceptable, `none` when it is bad. -/
def synSentAck : Option Bool :=
  if hasBit io.seg.flags tcpAck then
    if tcpInFrom io.seg.ack io.vars.iss=0 ∨ tcpInFrom io.vars.sndNxt io.vars.iss<tcpInFrom io.seg.ack io.vars.iss then none
    else some (ackNew io.seg.ack io.vars.sndUna io.vars.sndNxt)
  else some false

/-- RCV.NXT and IRS are set from the SYN. -/
def takeIrs : Io :=
  { io with vars := { io.vars with rcvNxt := io.seg.seq+1, irs := io.seg.seq } }

/-- The fourth check of SYN-SENT up to the state change: variables from the SYN and its ACK. -/
def synSentVars (ackOk : Bool) : Io :=
  setSndWnd (if ackOk then advanceUna (takeIrs io) else takeIrs io)

/-- The rest of SYN-SENT's fourth check: ESTABLISHED with any text and FIN, or SYN-RECEIVED. -/
def synSentEnter : Io :=
  if tcpInFrom io.vars.sndUna io.vars.iss≠0 then
    let io := putAck { io with
      state := .established
      res := { io.res with act := { io.res.act with established := true } } }
    if io.seg.dataLen≠0 ∨ hasBit io.seg.flags (tcpFin ||| tcpUrg) then checkTextFin cfg (checkUrg io)
    else io
  else putSynAck io

/-- The second check of SYN-SENT: a RST with an acceptable ACK closes the connection. -/
def synSentRst (ackOk : Bool) : Io :=
  if ackOk then
    { io with
      state := .closed
      res := { io.res with act := { io.res.act with reset := true, flush := true, delete := true } } }
  else io

/-- The second to fifth checks of SYN-SENT, once the ACK is judged. -/
def synSentBody (ackOk : Bool) : Io :=
  if hasBit io.seg.flags tcpRst then synSentRst io ackOk
  else if hasBit io.seg.flags tcpSyn then synSentEnter cfg (synSentVars io ackOk)
  else io

/-- `idemip_tcp_in_syn_sent`. -/
def synSent : Work :=
  if !w.ctx.ready || w.io.state≠.synSent then { w with io := opened w }
  else match synSentAck (begun w) with
    | none => { w with io := if hasBit w.io.seg.flags tcpRst then begun w else putAckRst (begun w) }
    | some ackOk => { w with io := synSentBody cfg (begun w) ackOk }

/-- The reset of RFC 9293 sec 3.10.7.4 second, by state. -/
def takeRst : Io :=
  match io.state with
  | .synReceived =>
    if io.listener≠noneIndex then
      { io with
        state := .listen
        res := { io.res with act := { io.res.act with flush := true, listen := true } } }
    else
      { io with
        state := .closed
        res := { io.res with act := { io.res.act with flush := true, refused := true, delete := true } } }
  | .established | .finWait1 | .finWait2 | .closeWait =>
    { io with
      state := .closed
      res := { io.res with act := { io.res.act with reset := true, flush := true, delete := true } } }
  | .closing | .lastAck | .timeWait =>
    { io with
      state := .closed
      res := { io.res with act := { io.res.act with flush := true, delete := true } } }
  | _ => io

/-- The second check, the RST bit; true when processing stops. -/
def checkRst : Bool × Work :=
  if !hasBit w.io.seg.flags tcpRst then (false,w)
  else if w.io.seg.seq≠w.io.vars.rcvNxt ∧ !rstInWindow w.io.seg.seq w.io.vars.rcvNxt w.io.vars.rcvWnd then
    (true,w)
  else if w.io.seg.seq≠w.io.vars.rcvNxt then (true,putChallenge cfg w)
  else (true,{ w with io := takeRst w.io })

/-- The fourth check, the SYN bit; true when processing stops. -/
def checkSyn : Bool × Work :=
  if !hasBit w.io.seg.flags tcpSyn then (false,w)
  else if w.io.state=.synReceived ∧ w.io.listener≠noneIndex ∧ w.io.res.acceptable then
    (true,{ w with io := { w.io with
      state := .listen
      res := { w.io.res with act := { w.io.res.act with listen := true } } } })
  else (true,putChallenge cfg w)

/-- The window a segment carries is taken and reported. -/
def takeWnd : Io :=
  { setSndWnd io with res := { (setSndWnd io).res with act := { (setSndWnd io).res.act with wnd := true } } }

/-- SND.UNA advances to a new acknowledgment; any other is a duplicate. -/
def takeAck : Io :=
  if ackNew io.seg.ack io.vars.sndUna io.vars.sndNxt then advanceUna io
  else { io with res := { io.res with act := { io.res.act with dupack := true } } }

/-- The send window update of the fifth check. -/
def updateWnd : Io :=
  if ackWithin io.seg.ack io.vars.sndUna io.vars.sndNxt then
    let at' := tcpInFrom io.seg.seq io.vars.sndWl1
    let newer := at' != 0 && at'<0x80000000
    let same := io.seg.seq==io.vars.sndWl1 && tcpInFrom io.seg.ack io.vars.sndWl2<0x80000000
    if newer || same then takeWnd io else io
  else io

/-- The state part of the fifth check, once SND.UNA and the window are settled. -/
def ackState : Bool × Io :=
  let finAcked := io.vars.sndUna==io.vars.sndNxt
  match io.state with
  | .finWait1 => (false,if finAcked then { io with state := .finWait2 } else io)
  | .closing => (true,if finAcked then put2msl cfg { io with state := .timeWait } else io)
  | .lastAck =>
    (true,
      if finAcked then
        { io with
          state := .closed
          res := { io.res with act := { io.res.act with delete := true } } }
      else io)
  | .timeWait => (true,put2msl cfg (putAck io))
  | _ => (false,io)

/-- SYN-RECEIVED enters ESTABLISHED on an acceptable ACK. -/
def enterEstablished : Io :=
  let io := takeWnd { io with state := .established }
  { io with res := { io.res with act := { io.res.act with established := true } } }

/-- The fifth check past RFC 5961's range test and SYN-RECEIVED. -/
def ackBody : Bool × Io := ackState cfg (updateWnd (takeAck io))

/-- The fifth check, the ACK field; true when processing stops. -/
def checkAck : Bool × Io :=
  if !hasBit io.seg.flags tcpAck then (true,io)
  else if !ackInRange io.seg.ack io.vars.sndUna io.vars.sndNxt io.ctl.maxSndWnd then (true,putAck io)
  else if io.state=.synReceived then
    if ackNew io.seg.ack io.vars.sndUna io.vars.sndNxt then ackBody cfg (enterEstablished io)
    else (true,putAckRst io)
  else ackBody cfg io

/-- An unacceptable segment that carries neither RST nor SYN. -/
def rejectPlain : Io :=
  let io := checkUrg io
  if io.vars.rcvWnd=0 then
    let r := checkAck cfg io
    if r.1 then r.2 else putAck r.2
  else putAck io

/-- A segment Table 6 refuses. -/
def reject : Work :=
  if hasBit w.io.seg.flags tcpRst then (checkRst cfg w).2
  else if hasBit w.io.seg.flags tcpSyn then (checkSyn cfg w).2
  else { w with io := rejectPlain cfg w.io }

/-- The second to eighth checks of a segment Table 6 accepts. -/
def accept : Work :=
  let r := checkRst cfg w
  if r.1 then r.2 else
  let r := checkSyn cfg r.2
  if r.1 then r.2 else
  let a := checkAck cfg r.2.io
  if a.1 then { r.2 with io := a.2 } else { r.2 with io := checkTextFin cfg (checkUrg a.2) }

/-- The timestamp test of a segment entry. -/
def stamped : Bool × Io := paws cfg (begun w)

/-- Table 6's verdict on the arriving segment. -/
def verdict : Bool :=
  segAcceptable w.io.seg.seq w.io.seg.len w.io.vars.rcvNxt w.io.vars.rcvWnd

/-- The block past the timestamp test and Table 6. -/
def judged : Io :=
  { (stamped cfg w).2 with res := { (stamped cfg w).2.res with acceptable := verdict w } }

/-- A segment the timestamp test rejects is acknowledged. -/
def putPaws : Io :=
  putAck { io with res := { io.res with act := { io.res.act with paws := true } } }

/-- `idemip_tcp_in_segment`. -/
def segment : Work :=
  if !w.ctx.ready || w.io.state.rank<3 then { w with io := opened w }
  else if (stamped cfg w).1 then { w with io := putPaws (stamped cfg w).2 }
  else if verdict w then accept cfg { w with io := judged cfg w }
  else reject cfg { w with io := judged cfg w }

theorem paws_frame : ∃ ts ms, (paws cfg io).2={ io with ctl := { io.ctl with tsRecent := ts, tsRecentMs := ms } } := by
  unfold paws
  split_ifs
  · exact ⟨io.ctl.tsRecent,io.ctl.tsRecentMs,rfl⟩
  · exact ⟨io.ctl.tsRecent,io.ctl.tsRecentMs,rfl⟩
  · exact ⟨io.opts.tsval,io.nowMs,rfl⟩
  · exact ⟨io.opts.tsval,io.nowMs,rfl⟩
  · exact ⟨io.ctl.tsRecent,io.ctl.tsRecentMs,rfl⟩

/-- The judged block is the operand block with results cleared, the verdict in, and a TS.Recent. -/
theorem judged_frame : ∃ ts ms, judged cfg w={ w.io with
      ctl := { w.io.ctl with tsRecent := ts, tsRecentMs := ms }
      status := .ok
      reply := ⟨0,0,0⟩
      res := ⟨Act.none,0,0,0,0,verdict w⟩ } := by
  obtain ⟨ts,ms,h⟩ := paws_frame cfg (begun w)
  refine ⟨ts,ms,?_⟩
  unfold judged stamped
  rw [h]
  rfl

theorem checkRst_clear {cfg : Config} {w : Work} (h : hasBit w.io.seg.flags tcpRst=false) : checkRst cfg w=(false,w) := by
  unfold checkRst
  rw [h]
  rfl

theorem checkRst_stops {cfg : Config} {w : Work} (h : hasBit w.io.seg.flags tcpRst) : (checkRst cfg w).1 := by
  unfold checkRst
  rw [h]
  simp only [Bool.not_true,Bool.false_eq_true,if_false]
  split_ifs <;> rfl

theorem checkSyn_clear {cfg : Config} {w : Work} (h : hasBit w.io.seg.flags tcpSyn=false) : checkSyn cfg w=(false,w) := by
  unfold checkSyn
  rw [h]
  rfl

theorem checkSyn_stops {cfg : Config} {w : Work} (h : hasBit w.io.seg.flags tcpSyn) : (checkSyn cfg w).1 := by
  unfold checkSyn
  rw [h]
  simp only [Bool.not_true,Bool.false_eq_true,if_false]
  split_ifs <;> rfl

theorem accept_eq : accept cfg w=
      if hasBit w.io.seg.flags tcpRst then (checkRst cfg w).2
      else if hasBit w.io.seg.flags tcpSyn then (checkSyn cfg w).2
      else if (checkAck cfg w.io).1 then { w with io := (checkAck cfg w.io).2 }
      else { w with io := checkTextFin cfg (checkUrg (checkAck cfg w.io).2) } := by
  unfold accept
  cases hr : hasBit w.io.seg.flags tcpRst with
  | true => simp only [checkRst_stops hr,if_true]
  | false =>
    simp only [checkRst_clear hr,Bool.false_eq_true,if_false]
    cases hs : hasBit w.io.seg.flags tcpSyn with
    | true => simp only [checkSyn_stops hs,if_true]
    | false => simp only [checkSyn_clear hs,Bool.false_eq_true,if_false]

theorem segment_eq : segment cfg w=
      if !w.ctx.ready || w.io.state.rank<3 then { w with io := opened w }
      else if (stamped cfg w).1 then { w with io := putPaws (stamped cfg w).2 }
      else if hasBit w.io.seg.flags tcpRst then (checkRst cfg { w with io := judged cfg w }).2
      else if hasBit w.io.seg.flags tcpSyn then (checkSyn cfg { w with io := judged cfg w }).2
      else if !verdict w then { w with io := rejectPlain cfg (judged cfg w) }
      else if (checkAck cfg (judged cfg w)).1 then { w with io := (checkAck cfg (judged cfg w)).2 }
      else { w with io := checkTextFin cfg (checkUrg (checkAck cfg (judged cfg w)).2) } := by
  have hseg : (judged cfg w).seg=w.io.seg := by
    obtain ⟨ts,ms,h⟩ := judged_frame cfg w
    rw [h]
  unfold segment
  rw [accept_eq]
  unfold reject
  simp only [hseg]
  cases verdict w <;> cases hasBit w.io.seg.flags tcpRst <;> cases hasBit w.io.seg.flags tcpSyn <;> rfl

end Checks

section Entry

open Octets

/-- Header fields by offset, `tcp.c`. -/
structure Header where
  (srcPort dstPort : BitVec 16)
  (seq ack : BitVec 32)
  doff : ℕ
  flags : BitVec 8
  (window urgent : BitVec 16)

/-- The fields of a header. -/
def header (h : Octets) : Header where
  srcPort := h.rd16
  dstPort := (h.drop 2).rd16
  seq := (h.drop 4).rd32
  ack := (h.drop 8).rd32
  doff := ((h.drop 12).rd16>>>12 &&& 0xF).toNat
  flags := (h.drop 12).rd16.setWidth 8
  window := (h.drop 14).rd16
  urgent := (h.drop 18).rd16

/-- Header octets with the options, `idemip_tcp_hdr_len`. -/
def Header.hdrLen (h : Header) : ℕ := h.doff*4

/-- Option octets, `idemip_tcp_opts_len`. -/
def Header.optsLen (h : Header) : ℕ := if h.doff≤5 then 0 else (h.doff-5)*4

/-- A shift no larger than `IDEMIP_TCP_WS_MAX`. -/
def clampShift (shift : BitVec 8) : BitVec 8 := if 14 < shift then 14 else shift

/-- What one option adds to those read, by kind and length. -/
def takeOpt (o : Opts) (flags : BitVec 8) (kind : BitVec 8) (len : ℕ) (p : Octets) : Opts :=
  if kind=2 ∧ len=4 then { o with mss := (p.drop 2).rd16, mssPresent := true }
  else if kind=3 ∧ len=3 ∧ hasBit flags tcpSyn then { o with ws := clampShift (p 2), wsPresent := true }
  else if kind=8 ∧ len=10 then
    { o with tsval := (p.drop 2).rd32, tsecr := (p.drop 6).rd32, tsPresent := true }
  else if kind=4 ∧ len=2 then { o with sackPermPresent := true }
  else o

/-- The walk over the options, `idemip_tcp_opt_next` to its end; the flag is an illegal length. -/
def walkOpts (p : Octets) (stop : ℕ) (flags : BitVec 8) : ℕ → ℕ → Opts → Opts×Bool
  | 0,_,o => (o,false)
  | fuel+1,pos,o =>
    if stop≤pos then (o,false)
    else if p pos=0 then (o,false)
    else if p pos=1 then walkOpts p stop flags fuel (pos+1) o
    else if stop-pos<2 then (o,true)
    else
      let len := (p (pos+1)).toNat
      if len<2 ∨ stop-pos<len then (o,true)
      else walkOpts p stop flags fuel (pos+len) (takeOpt o flags (p pos) len (p.drop pos))

/-- Operands of a parse, `TcpInParseArgs`. -/
structure ParseArgs where
  (seg localIp remoteIp : Option Octets)
  len : BitVec 16
  ipVersion : ℕ
  sndScale : BitVec 8

/-- Whether the lengths and the checksum let the segment be read. -/
def intact (h localIp remoteIp : Octets) (len : BitVec 16) (ipVersion : ℕ) : Bool :=
  if len<20 then false
  else if (header h).hdrLen<20 ∨ len.toNat<(header h).hdrLen then false
  else match Checksum.pseudo 0 ipVersion 6 remoteIp localIp (len.setWidth 32) with
    | none => false
    | some sum => Checksum.final (Checksum.accum sum h len.toNat)==0

/-- The segment fields a parse reports. -/
def readSeg (h : Octets) (len : BitVec 16) (sndScale : BitVec 8) : SegArgs :=
  let hd := header h
  let data := len-BitVec.ofNat 16 hd.hdrLen
  let syn := hasBit hd.flags tcpSyn
  { seq := hd.seq
    ack := hd.ack
    wnd := if syn then hd.window.setWidth 32 else hd.window.setWidth 32<<<(clampShift sndScale).toNat
    len := data.setWidth 32+(if syn then 1 else 0)+if hasBit hd.flags tcpFin then 1 else 0
    dataLen := data
    up := hd.urgent
    flags := hd.flags }

/-- The options a parse reports, and whether one had an illegal length. -/
def readOpts (h : Octets) : Opts×Bool :=
  let hd := header h
  walkOpts (h.drop 20) hd.optsLen hd.flags hd.optsLen 0 { Opts.zero with hdrLen := BitVec.ofNat 16 hd.hdrLen }

/-- The block with nothing read. -/
def unread (w : Work) : Io := { w.io with status := .err, seg := .zero, opts := .zero }

/-- `idemip_tcp_in_parse`. -/
def parse (w : Work) (a : ParseArgs) : Work :=
  match a.seg,a.localIp,a.remoteIp with
  | some h,some localIp,some remoteIp =>
    if !w.ctx.ready then { w with io := unread w }
    else if !intact h localIp remoteIp a.len a.ipVersion then { w with io := unread w }
    else { w with io := { w.io with
      seg := readSeg h a.len a.sndScale
      opts := (readOpts h).1
      status := if (readOpts h).2 then .err else .ok } }
  | _,_,_ => { w with io := unread w }

theorem parse_frame {w : Work} {a : ParseArgs} :
    ∃ seg opts st,parse w a={ w with io := { w.io with seg := seg, opts := opts, status := st } } := by
  unfold parse
  split
  · split_ifs <;> exact ⟨_,_,_,rfl⟩
  · exact ⟨_,_,_,rfl⟩

/-- A parse that succeeds read the segment's own fields, and its header fits the segment. -/
theorem parse_ok {w : Work} {a : ParseArgs} (h : (parse w a).io.status=.ok) :
    ∃ p,a.seg=some p ∧ (parse w a).io.seg=readSeg p a.len a.sndScale ∧ (parse w a).io.opts=(readOpts p).1 ∧
      20≤(header p).hdrLen ∧ (header p).hdrLen≤a.len.toNat := by
  unfold parse at h ⊢
  split at h
  · rename_i p l r hp hl hr
    split_ifs at h with hready hok
    · cases h
    · cases h
    refine ⟨p,hp,?_⟩
    rw [if_neg hready,if_neg hok]
    refine ⟨rfl,rfl,?_⟩
    have hint : intact p l r a.len a.ipVersion=true := by simpa using hok
    unfold intact at hint
    split_ifs at hint with hlen hhdr
    exact ⟨by omega,by omega⟩
  · cases h

end Entry

end IdemIp.TcpIn
