import IdemIp.Config
import IdemIp.StepRun

/-!
# Expirations of the retransmission timer

Each expiration doubles RTO under a maximum and counts itself in an octet that
stays at 255. Where twice the maximum fits a word, RTO is the first one times a
power of two or the maximum, and R2 is reported from the count that reaches it on.
-/

namespace IdemIp.TcpOut

open StepRun BitVec

/-- The first value and the bounds of RTO. -/
structure Timing where
  (rtoInitMs rtoMinMs rtoMaxMs : BitVec 32)

def Timing.shipped : Timing := ⟨1000,1000,60000⟩

/-- What the caller sets before a timer entry: the connection's state and `TcpOutTimerArgs`. -/
structure TimerArgs where
  state : TcpState
  (nowMs flight smss : BitVec 32)
  resent : Bool

/-- One borrow of the unit, as the timer entries use it. -/
structure Work where
  ready : Bool
  ctl : TcpPcbCtl
  status : Status
  r2 : Bool

variable (cfg : Timing) (w : Work) (a : TimerArgs)

def rtoBound (rto : BitVec 32) : BitVec 32 :=
  if rto < cfg.rtoMinMs then cfg.rtoMinMs else if cfg.rtoMaxMs < rto then cfg.rtoMaxMs else rto

/-- RTO from now, and never the value of a timer that is off. -/
def deadline (now rto : BitVec 32) : BitVec 32 := if now+rto=0 then now+rto+1 else now+rto

/-- The SYN of the connection is not acknowledged yet. -/
def TimerArgs.opening : Bool := a.state=.synSent || a.state=.synReceived

/-- RFC 5681's threshold after a loss. -/
def halved : BitVec 32 :=
  let half := a.flight.ushiftRight 1
  let floor2 := a.smss.shiftLeft 1
  if floor2<half then half else floor2

/-- A count in an octet that stays at its greatest value. -/
def counted (n : BitVec 8) : BitVec 8 := if n<0xFF then n+1 else n

/-- The threshold R2 of the connection's state. -/
def TimerArgs.limit (ctl : TcpPcbCtl) : BitVec 8 := if a.opening then ctl.r2Syn else ctl.r2

/-- What an expiration leaves of the control block. -/
def expired (ctl : TcpPcbCtl) : TcpPcbCtl :=
  let rto := rtoBound cfg ((if ctl.rto=0 then cfg.rtoInitMs else ctl.rto).shiftLeft 1)
  {ctl with
    ssthresh := if a.resent then ctl.ssthresh else halved a
    cwnd := a.smss
    bytesAcked := 0
    dupacks := 0
    rto := rto
    rtxDeadline := deadline a.nowMs rto
    flags := if a.opening then ctl.flags ||| 1 else ctl.flags
    nrtx := counted ctl.nrtx
    backoff := counted ctl.backoff}

/-- `idemip_tcp_out_rtx_expire`. -/
def rtxExpire : Work :=
  if !w.ready || a.smss=0 then {w with status := .err,r2 := false}
  else
    let ctl := expired cfg a w.ctl
    {w with ctl := ctl,r2 := a.limit ctl != 0 && a.limit ctl ≤ ctl.nrtx,status := .ok}

/-- `idemip_tcp_out_rtx_stop`. -/
def rtxStop : Work :=
  if !w.ready then {w with status := .err}
  else {w with ctl := {w.ctl with rtxDeadline := 0,nrtx := 0,backoff := 0},status := .ok}

/-- `idemip_tcp_out_rtx_restart`. -/
def rtxRestart : Work :=
  if !w.ready then {w with status := .err}
  else
    let rto := if w.ctl.rto=0 then cfg.rtoInitMs else w.ctl.rto
    {w with ctl := {w.ctl with rto := rto,rtxDeadline := deadline a.nowMs rto,nrtx := 0,backoff := 0},status := .ok}

/-- The connection a number of expirations after another. -/
structure Expired (v : TcpPcbCtl) (n : ℕ) (w : Work) : Prop where
  ready : w.ready
  rto : w.ctl.rto.toNat=min cfg.rtoMaxMs.toNat (v.rto.toNat*2^n)
  nrtx : w.ctl.nrtx.toNat=min 255 n
  limits : w.ctl.r2=v.r2 ∧ w.ctl.r2Syn=v.r2Syn

variable {cfg} {w a} {v : TcpPcbCtl} {n : ℕ}

theorem toNat_counted : ∀ n : BitVec 8,(counted n).toNat=min 255 (n.toNat+1) := by decide +kernel

theorem deadline_eq {now rto : BitVec 32} : deadline now rto=if now+rto=0 then 1 else now+rto := by
  unfold deadline
  split_ifs with h0
  · rw [h0]
    rfl
  · rfl

theorem toNat_doubled {rto : BitVec 32} (hmax : cfg.rtoMaxMs.toNat<2^31) (hle : rto.toNat ≤ cfg.rtoMaxMs.toNat)
    (hmin : cfg.rtoMinMs.toNat ≤ rto.toNat) :
    (rtoBound cfg (rto.shiftLeft 1)).toNat=min cfg.rtoMaxMs.toNat (rto.toNat*2) := by
  have ht : (rto.shiftLeft 1).toNat=rto.toNat*2 := by
    show rto.toNat<<<1%2^32=_
    omega
  unfold rtoBound
  simp only [lt_def,ht]
  split_ifs <;> omega

section Runs

variable (hpos : 0 < cfg.rtoMinMs.toNat) (hmax : cfg.rtoMaxMs.toNat<2^31) (hmin : cfg.rtoMinMs.toNat≤v.rto.toNat)
  (hle : v.rto.toNat ≤ cfg.rtoMaxMs.toNat)

include hpos hmax hmin hle

theorem Expired.step (h : Expired cfg v n w) (ha : a.smss≠0) : (∃ r,rtxExpire cfg w a=⟨w.ready,expired cfg a w.ctl,.ok,r⟩ ∧
      (r ↔ a.limit v≠0 ∧ (a.limit v).toNat≤n+1)) ∧ Expired cfg v (n+1) (rtxExpire cfg w a) := by
  have heq : rtxExpire cfg w a=_ := if_neg (by simpa [h.ready] using ha)
  have hl : a.limit (expired cfg a w.ctl)=a.limit v := by
    unfold TimerArgs.limit
    rw [←h.limits.1,←h.limits.2]
    rfl
  have hn : (expired cfg a w.ctl).nrtx.toNat=min 255 (n+1) := by
    show (counted w.ctl.nrtx).toNat=_
    rw [toNat_counted,h.nrtx]
    omega
  have hpow : v.rto.toNat≤v.rto.toNat*2^n := Nat.le_mul_of_pos_right _ (Nat.two_pow_pos n)
  have hr := h.rto
  have hne : ¬w.ctl.rto=0 := by
    intro h0
    rw [h0] at hr
    simp at hr
    omega
  rw [heq]
  refine ⟨⟨_,rfl,?_⟩,h.ready,?_,hn,h.limits⟩
  · have hlt := (a.limit v).isLt
    rw [hl,Bool.and_eq_true,bne_iff_ne,decide_eq_true_eq,le_def,hn]
    exact and_congr_right fun _ => by omega
  · show (rtoBound cfg (BitVec.shiftLeft (if w.ctl.rto=0 then _ else _) 1)).toNat=_
    rw [if_neg hne,toNat_doubled hmax (by omega) (by omega),hr,Nat.pow_succ,←Nat.mul_assoc]
    omega

theorem Expired.run (as : List TimerArgs) (h : Expired cfg v n w) (has : ∀ a∈as,a.smss≠0) :
    Expired cfg v (n+as.length) (run (rtxExpire cfg) w as) := by
  induction as generalizing w n with
  | nil => exact h
  | cons a as ih =>
    obtain ⟨ha,has⟩ := List.forall_mem_cons.1 has
    have hr := ih (Expired.step hpos hmax hmin hle h ha).2 has
    rwa [Nat.add_assoc,Nat.add_comm 1] at hr

end Runs

/-- From a stop or a restart on, a number of expirations: RTO, the deadline and the report of R2. -/
theorem run_expired (cfg : Timing) (hpos : 0 < cfg.rtoMinMs.toNat) (hmax : cfg.rtoMaxMs.toNat<2^31) (w : Work)
    (hw : w.ready=true) (hmin : cfg.rtoMinMs.toNat≤w.ctl.rto.toNat) (hle : w.ctl.rto.toNat ≤ cfg.rtoMaxMs.toNat)
    (b : TimerArgs) (s : Work) (hs : s=rtxStop w ∨ s=rtxRestart cfg w b) (as : List TimerArgs) (has : ∀ a∈as,a.smss≠0)
    (a : TimerArgs) (ha : a.smss≠0) :
    let u := rtxExpire cfg (run (rtxExpire cfg) s as) a
    u.ctl.rto.toNat=min cfg.rtoMaxMs.toNat (w.ctl.rto.toNat*2^(as.length+1)) ∧
      u.ctl.rtxDeadline=(if a.nowMs+u.ctl.rto=0 then 1 else a.nowMs+u.ctl.rto) ∧
      (u.r2=true ↔ a.limit w.ctl≠0 ∧ (a.limit w.ctl).toNat≤as.length+1) := by
  have hne : ¬w.ctl.rto=0 := by
    intro h0
    rw [h0] at hmin
    simp at hmin
    omega
  have hstart : Expired cfg w.ctl 0 s := by
    have hrto : w.ctl.rto.toNat=min cfg.rtoMaxMs.toNat (w.ctl.rto.toNat*2^0) := by omega
    rcases hs with rfl|rfl
    · rw [rtxStop,if_neg (by simp [hw])]
      exact ⟨hw,hrto,rfl,rfl,rfl⟩
    · rw [rtxRestart,if_neg (by simp [hw]),if_neg hne]
      exact ⟨hw,hrto,rfl,rfl,rfl⟩
  have hrun := Expired.run hpos hmax hmin hle as hstart has
  rw [Nat.zero_add] at hrun
  obtain ⟨⟨r,heq,hr2⟩,hend⟩ := Expired.step hpos hmax hmin hle hrun ha
  refine ⟨hend.rto,?_,?_⟩
  · rw [heq]
    exact deadline_eq
  · rw [heq]
    exact hr2

/-- A connection with R2 of three retransmissions and an RTO. -/
def waiting (rto : BitVec 32) : Work := ⟨true,{TcpPcbCtl.zero with rto := rto,r2 := 3},.ok,false⟩

/-- An expiration of ESTABLISHED. -/
def expiry (now : BitVec 32) : TimerArgs := ⟨.established,now,0,1460,false⟩

/-- The third one in a row, at an instant whose deadline would name a timer that is off. -/
theorem run_expired_third :
    let u := rtxExpire .shipped (run (rtxExpire .shipped) (rtxStop (waiting 1000)) [expiry 0,expiry 2000]) (expiry (0-8000))
    u.ctl.rto=8000 ∧ u.ctl.rtxDeadline=1 ∧ u.r2=true ∧ u.ctl.rto.toNat=min 60000 (1000*2^3) :=
  ⟨by decide,by decide,by decide,(run_expired .shipped (by decide) (by decide) (waiting 1000) rfl (by decide) (by decide)
    (expiry 0) _ (.inl rfl) [expiry 0,expiry 2000] (by decide) (expiry (0-8000)) (by decide)).1⟩

/-- Under a maximum of half a word and more the doubling wraps, and RTO falls to the minimum. -/
theorem doubling_wraps :
    let cfg : Timing := ⟨1000,1000,0xFFFFFFFF⟩
    let u := rtxExpire cfg (rtxStop (waiting 0x80000000)) (expiry 0)
    u.status=.ok ∧ u.ctl.rto=1000 ∧ u.ctl.rto.toNat≠min cfg.rtoMaxMs.toNat ((waiting 0x80000000).ctl.rto.toNat*2^1) := by
  decide

end IdemIp.TcpOut
