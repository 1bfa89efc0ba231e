import Mathlib.Tactic.SplitIfs
import IdemIp.Config
import IdemIp.Checksum
import IdemIp.StepRun

/-!
# The DHCP client, `dhcp4.c`, and its clock, `ms.c`

A caller's clock has 32 bits and `extend` counts its turns. One context walks the
states of RFC 2131. `start`, `tick` and `inform` read the clock, `input` takes what a
server sent and `build` writes the message that is owed. The timers of the header
stand at their defaults.
-/

namespace IdemIp.Ms

open BitVec

/-- Milliseconds of so many seconds, `idemip_ms_from_s`. -/
def fromS (seconds : BitVec 32) : ℕ := (seconds.toNat<<<10)-(seconds.toNat<<<4)-(seconds.toNat<<<3)

/-- The high word after a reading, `idemip_ms_extend`. -/
def high (last hi nowMs : BitVec 32) : BitVec 32 := if nowMs<last then hi+1 else hi

/-- The two words of the clock joined. -/
def join (hi lo : BitVec 32) : ℕ := hi.toNat*2^32+lo.toNat

/-- A sum on a clock of 64 bits. -/
def add (a b : ℕ) : ℕ := (a+b)%2^64

@[simp] theorem fromS_eq (seconds : BitVec 32) : fromS seconds=1000*seconds.toNat := by
  simp only [fromS,Nat.shiftLeft_eq]
  omega

theorem add_eq {a b : ℕ} (h : a+b<2^64) : add a b=a+b := Nat.mod_eq_of_lt h

/-- The clock was read at an instant, and counts its turns up to there. -/
def Reads (tickMs tickHi : BitVec 32) (t : ℕ) : Prop := tickMs=BitVec.ofNat 32 t ∧ tickHi=BitVec.ofNat 32 (t/2^32)

/-- A reading less than a turn after the last one is counted. -/
theorem Reads.extend {last hi : BitVec 32} {t u : ℕ} (h : Reads last hi t) (hle : t≤u) (hlt : u<t+2^32) (hu : u<2^64) :
    Reads (BitVec.ofNat 32 u) (high last hi (BitVec.ofNat 32 u)) u ∧
      join (high last hi (BitVec.ofNat 32 u)) (BitVec.ofNat 32 u)=u := by
  have hh : high last hi (BitVec.ofNat 32 u)=BitVec.ofNat 32 (u/2^32) := by
    refine eq_of_toNat_eq ?_
    have hw : BitVec.ofNat 32 u < BitVec.ofNat 32 t ↔ u%2^32<t%2^32 := by
      rw [lt_def,toNat_ofNat,toNat_ofNat]
    rw [high,h.1,h.2]
    split_ifs with hl
    · rw [hw] at hl
      rw [toNat_add,toNat_ofNat,toNat_ofNat,show (1 : BitVec 32).toNat=1 from rfl]
      omega
    rw [hw] at hl
    rw [toNat_ofNat,toNat_ofNat]
    omega
  refine ⟨⟨rfl,hh⟩,?_⟩
  rw [hh,join,toNat_ofNat,toNat_ofNat]
  omega

end IdemIp.Ms

namespace IdemIp.Dhcp4

section Model

/-- Messages, `IdemIpDhcp4MsgType`. -/
inductive MsgType
  | discover | offer | request | decline | ack | nak | release | inform
deriving DecidableEq

/-- The value of option 53. -/
def MsgType.code : MsgType → BitVec 8
  | discover => 1
  | offer => 2
  | request => 3
  | decline => 4
  | ack => 5
  | nak => 6
  | release => 7
  | inform => 8

/-- States of the client, `IdemIpDhcp4State`. -/
inductive State
  | init | selecting | requesting | bound | renewing | rebinding | initReboot | rebooting
deriving DecidableEq

/-- A lease is held. -/
def State.leased : State → Bool
  | bound | renewing | rebinding => true
  | _ => false

/-- A request waits for its answer. -/
def State.asking : State → Bool
  | requesting | rebooting | renewing | rebinding => true
  | _ => false

/-- What the client is configured with, `IdemIpDhcp4Cfg`. -/
structure Settings where
  chaddr : Option Octets
  leaseS : BitVec 32
  netif : ℕ
  (htype hlen : BitVec 8)
  broadcast : Bool

/-- The context, `Dhcp4Ctx`. -/
structure Ctx where
  cfg : Option Settings := none
  state : State := .init
  (owed sent : Option MsgType := none)
  retries : ℕ := 0
  xid : BitVec 32 := 0
  (nowMs retryMs : ℕ := 0)
  (tickMs tickHi : BitVec 32 := 0)
  (sentMs t1Ms t2Ms expireMs : ℕ := 0)
  (serverId offeredIp subnetMask router leaseS t1S t2S : BitVec 32 := 0)
  secs : BitVec 16 := 0

/-- Results of the operand block, `Dhcp4Io`, and the buffer `build` writes. -/
structure Io where
  status : Status := .ok
  state : State := .init
  msgType : BitVec 8 := 0
  (xid offeredIp subnetMask router serverId leaseS t1S t2S : BitVec 32 := 0)
  dns : Option Octets := none
  dnsCount : BitVec 8 := 0
  len : ℕ := 0
  dst : BitVec 32 := 0
  (dstPort srcPort : BitVec 16 := 0)
  out : Octets := .zero

/-- The caller's borrow. -/
structure Work where
  ctx : Ctx := {}
  io : Io := {}

/-- Options of a message, `Dhcp4Opts`: each is taken once. -/
structure Opts where
  (subnetMask router serverId leaseS t1S t2S : Option (BitVec 32) := none)
  dns : Option (Octets × BitVec 8) := none
  (msgType overload : Option (BitVec 8) := none)

/-- A draw from a span, `dhcp4_draw`. -/
def draw (rand span mask : BitVec 32) : BitVec 32 :=
  if rand &&& mask ≤ span then rand &&& mask else if rand>>>16 &&& mask ≤ span then rand>>>16 &&& mask else span>>>1

/-- A duration that ages, `dhcp4_timed`. -/
def timed (seconds : BitVec 32) : Bool := decide (seconds≠0 ∧ seconds≠0xFFFFFFFF)

/-- Half the time left, a minute at least, `dhcp4_half_left`. -/
def halfLeft (nowMs deadline : ℕ) (timed : Bool) : BitVec 32 :=
  let half := (if timed ∧ nowMs<deadline then deadline-nowMs else 0)/2
  let half := if 0xFFFFFFFF<half then 0xFFFFFFFF else half
  if 60000<half then BitVec.ofNat 32 half else 60000

/-- The delay before a message goes out again, `dhcp4_backoff`. -/
def backoff (c : Ctx) (rand : BitVec 32) : BitVec 32 :=
  let base :=
    if c.state=.renewing then halfLeft c.nowMs c.t2Ms (timed c.t2S)
    else if c.state=.rebinding then halfLeft c.nowMs c.expireMs (timed c.leaseS)
    else 4000<<<min c.retries 4
  let out := base-1000+draw rand 2000 0x7FF
  if (c.state=.renewing ∨ c.state=.rebinding) ∧ out<60000 then 60000 else out

/-- Show the caller the context, `dhcp4_publish`. -/
def Work.publish (w : Work) : Work :=
  let c := w.ctx
  {w with io := {w.io with
    state := c.state,xid := c.xid,offeredIp := c.offeredIp,subnetMask := c.subnetMask,router := c.router,
    serverId := c.serverId,leaseS := c.leaseS,t1S := c.t1S,t2S := c.t2S}}

/-- Report an outcome. -/
def Work.report (w : Work) (status : Status) : Work := {w with io := {w.io with status}}

/-- A new context, shown to the caller. -/
def Work.become (w : Work) (c : Ctx) : Work := {w with ctx := c}.publish

/-- Back to INIT without an address, `dhcp4_halt`. -/
def Ctx.halt (c : Ctx) : Ctx :=
  {cfg := c.cfg,xid := c.xid,nowMs := c.nowMs,retryMs := c.retryMs,tickMs := c.tickMs,tickHi := c.tickHi}

/-- Take an option, or refuse the message, the switch of `dhcp4_walk`. -/
def Opts.read (o : Opts) (code : BitVec 8) (v : Octets) (olen : ℕ) : Option Opts :=
  let word old : Option (Option (BitVec 32)) := if olen≠4 then none else some (old.or (some v.rd32))
  let octet old : Option (Option (BitVec 8)) := if olen≠1 then none else some (old.or (some (v 0)))
  let list := decide (olen<4 ∨ olen%4≠0)
  match code.toNat with
  | 1 => (word o.subnetMask).map fun r => {o with subnetMask := r}
  | 3 => if list then none else some {o with router := o.router.or (some v.rd32)}
  | 6 => if list then none else some {o with dns := o.dns.or (some (v,BitVec.ofNat 8 (olen/4)))}
  | 51 => (word o.leaseS).map fun r => {o with leaseS := r}
  | 52 => if v 0=0 ∨ 3<v 0 then none else (octet o.overload).map fun r => {o with overload := r}
  | 53 => (octet o.msgType).map fun r => {o with msgType := r}
  | 54 => (word o.serverId).map fun r => {o with serverId := r}
  | 58 => (word o.t1S).map fun r => {o with t1S := r}
  | 59 => (word o.t2S).map fun r => {o with t2S := r}
  | _ => some o

/-- The loop of `dhcp4_walk`. -/
def walkFrom (base : Octets) (span : ℕ) : ℕ → ℕ → Opts → Option Opts
  | 0,_,o => some o
  | n+1,i,o =>
    if i < span then
      if base i=255 then some o
      else if base i=0 then walkFrom base span n (i+1) o
      else if span < i+2 ∨ span < i+2+(base (i+1)).toNat then none
      else (o.read (base i) (base.drop (i+2)) (base (i+1)).toNat).bind (walkFrom base span n (i+2+(base (i+1)).toNat))
    else some o

/-- One region of options, `dhcp4_walk`. -/
def walk (base : Octets) (span : ℕ) (o : Opts) : Option Opts := walkFrom base span span 0 o

/-- The options of a message, `dhcp4_parse`. -/
def parse (msg : Octets) (len : ℕ) : Option Opts := do
  let o ← walk (msg.drop 240) (len-240) {}
  let o ← if o.overload.getD 0 &&& 1≠0 then walk (msg.drop 108) 128 o else some o
  if o.overload.getD 0 &&& 2≠0 then walk (msg.drop 44) 64 o else some o

/-- The parameters a message carried, where it carried them. -/
def Ctx.adopt (c : Ctx) (o : Opts) : Ctx :=
  {c with
    subnetMask := o.subnetMask.getD c.subnetMask,router := o.router.getD c.router,serverId := o.serverId.getD c.serverId}

/-- Take the parameters a message carried, `dhcp4_adopt`. -/
def adopt (w : Work) (o : Opts) : Work where
  ctx := w.ctx.adopt o
  io := {w.io with dns := (o.dns.map Prod.fst).or w.io.dns,dnsCount := (o.dns.map Prod.snd).getD w.io.dnsCount}

/-- T1 and T2 of a lease. -/
def times (o : Opts) (lease : BitVec 32) : BitVec 32 × BitVec 32 :=
  let t1 := lease>>>1
  let t2 := lease-(lease>>>3)
  if timed lease then
    if o.t1S.getD t1<o.t2S.getD t2 ∧ o.t2S.getD t2<lease then (o.t1S.getD t1,o.t2S.getD t2) else (t1,t2)
  else (lease,lease)

/-- Take a lease, `dhcp4_lease`. -/
def Ctx.lease (c : Ctx) (o : Opts) (msg : Octets) : Ctx :=
  let lease := o.leaseS.getD c.leaseS
  let (t1,t2) := times o lease
  {c with
    offeredIp := (msg.drop 16).rd32,leaseS := lease,t1S := t1,t2S := t2,t1Ms := Ms.add c.sentMs (Ms.fromS t1),
    t2Ms := Ms.add c.sentMs (Ms.fromS t2),expireMs := Ms.add c.sentMs (Ms.fromS lease),state := .bound,owed := none,
    sent := none,retries := 0,retryMs := c.nowMs}

/-- Choose an offer, and owe the request for it. -/
def Ctx.select (c : Ctx) (o : Opts) (msg : Octets) : Ctx :=
  {c with
    leaseS := o.leaseS.getD c.leaseS,offeredIp := (msg.drop 16).rd32,state := .requesting,retries := 0,sent := none,
    owed := some .request}

/-- An offer comes in, `dhcp4_offer`. -/
def offer (w : Work) (o : Opts) (msg : Octets) : Work × Bool :=
  if w.ctx.state≠.selecting ∨ o.serverId.isNone then (w,false)
  else
    let w := adopt w o
    ({w with ctx := w.ctx.select o msg},true)

/-- An acknowledgment comes in, `dhcp4_ack`. -/
def ack (w : Work) (o : Opts) (msg : Octets) : Work × Bool :=
  if w.ctx.sent=some .inform then
    let w := adopt w o
    ({w with ctx := {w.ctx with sent := none,owed := none,retries := 0}},true)
  else if w.ctx.state.asking=false then (w,false)
  else
    let w := adopt w o
    ({w with ctx := w.ctx.lease o msg},true)

/-- A refusal comes in, `dhcp4_nak`. -/
def nak (w : Work) : Work × Bool :=
  if w.ctx.state.asking=false then (w,false) else (w.become w.ctx.halt,true)

/-- The tests of `dhcp4_take` ahead of the options. -/
def answers (c : Ctx) (s : Settings) (msg : Octets) (len : ℕ) : Bool :=
  decide (300≤len ∧ msg 0=2 ∧ (msg.drop 236).rd32=0x63825363 ∧ (msg.drop 4).rd32=c.xid ∧ msg 1=s.htype ∧ msg 2=s.hlen) &&
    (msg.drop 28).bytesEq (s.chaddr.getD .zero) s.hlen.toNat

/-- One message comes in, `dhcp4_take`. -/
def take (w : Work) (s : Settings) (msg : Option Octets) (len : ℕ) : Work × Bool :=
  match msg with
  | none => (w,false)
  | some msg =>
    if answers w.ctx s msg len=false then (w,false)
    else
      match parse msg len with
      | none => (w,false)
      | some o =>
        match o.msgType with
        | none => (w,false)
        | some type =>
          let w := {w with io := {w.io with msgType := type}}
          if type=2 then offer w o msg else if type=5 then ack w o msg else if type=6 then nak w else (w,false)

/-- Octets of a word in network order. -/
def octets (v : BitVec 32) : List (BitVec 8) :=
  [(v>>>24).setWidth 8,(v>>>16).setWidth 8,(v>>>8).setWidth 8,v.setWidth 8]

/-- The options of a message to send. -/
def options (c : Ctx) (s : Settings) (m : MsgType) : List (BitVec 8) :=
  let renewing := decide (c.state=.renewing ∨ c.state=.rebinding)
  let hints := decide (m=.discover ∨ m=.request ∨ m=.inform)
  [53,1,m.code]++(if hints then [57,2,2,0x40] else [])++
    (if m=.decline ∨ m=.request ∧ renewing=false then 50::4::octets c.offeredIp else [])++
    (if m=.decline ∨ m=.release ∨ m=.request ∧ c.state=.requesting then 54::4::octets c.serverId else [])++
    (if (m=.discover ∨ m=.request) ∧ s.leaseS≠0 then 51::4::octets s.leaseS else [])++
    (if hints then [55,3,1,3,6] else [])++[255]

/-- The message on the wire, the writes of `dhcp4_write`. -/
def message (c : Ctx) (s : Settings) (m : MsgType) (out : Octets) : Octets :=
  let renewing := decide (c.state=.renewing ∨ c.state=.rebinding)
  let opts := options c s m
  let out := (((out.fill 0 0 300).wr8 0 1).wr8 1 s.htype).wr8 2 s.hlen
  let out := (out.wr32 4 c.xid).wr16 8 (if m=.decline ∨ m=.release then 0 else c.secs)
  let out := if s.broadcast ∧ (m=.discover ∨ m=.request ∧ renewing=false) then out.wr16 10 0x8000 else out
  let out := if m=.release ∨ m=.inform ∨ m=.request ∧ renewing then out.wr32 12 c.offeredIp else out
  ((out.copy 28 (s.chaddr.getD .zero) s.hlen.toNat).wr32 236 0x63825363).copy 240 (.ofList opts) opts.length

/-- Where the message goes. -/
def destination (c : Ctx) (m : MsgType) : BitVec 32 :=
  if m=.release ∨ m=.request ∧ c.state=.renewing ∨ m=.inform ∧ c.serverId≠0 then c.serverId else 0xFFFFFFFF

/-- The context behind a message that went out, the end of `dhcp4_write`. -/
def Ctx.wrote (c : Ctx) (m : MsgType) (rand : BitVec 32) : Ctx :=
  let next := Ms.add c.nowMs (backoff c rand).toNat
  let c := {c with sentMs := c.nowMs,sent := some m,owed := none,retries := if c.retries<255 then c.retries+1 else c.retries}
  if m=.release then {c.halt with retryMs := c.nowMs}
  else if m=.decline then {c.halt with retryMs := Ms.add c.nowMs 10000}
  else {c with retryMs := next}

/-- Write the message that is owed, `dhcp4_write`. -/
def write (w : Work) (s : Settings) (m : MsgType) (out : Octets) (rand : BitVec 32) : Work :=
  let c := w.ctx
  {w with io := {w.io with
    len := 300,dst := destination c m,dstPort := 67,srcPort := 68,msgType := m.code,out := message c s m out}}.become
    (c.wrote m rand)

/-- Owe the request of a state that is entered. -/
def Ctx.ask (c : Ctx) (s : State) : Ctx := {c with state := s,sent := some .request,retries := 0,owed := some .request}

/-- Send again or give up, `dhcp4_retry`. -/
def Ctx.retry (c : Ctx) (tries : ℕ) : Ctx := if tries≠0 ∧ tries ≤ c.retries then c.halt else {c with owed := c.sent}

/-- What the clock does in a state, `dhcp4_run`. -/
def run (c : Ctx) : Option Ctx :=
  let due deadline := decide (deadline ≤ c.nowMs)
  if c.owed.isSome then none
  else
    match c.state with
    | .selecting => if due c.retryMs then some ({c with sent := some .discover}.retry 0) else none
    | .initReboot => if due c.retryMs then some (c.ask .rebooting) else none
    | .requesting | .rebooting => if due c.retryMs then some (c.retry 4) else none
    | .init =>
      if c.sent≠some .inform ∨ due c.retryMs=false then none
      else if 4 ≤ c.retries then some {c with sent := none,retries := 0}
      else some {c with owed := some .inform}
    | .bound | .renewing | .rebinding =>
      if timed c.leaseS ∧ due c.expireMs then some c.halt
      else if c.state≠.rebinding ∧ timed c.t2S ∧ due c.t2Ms then some (c.ask .rebinding)
      else if c.state=.bound ∧ timed c.t1S ∧ due c.t1Ms then some (c.ask .renewing)
      else if c.state=.bound ∨ due c.retryMs=false then none
      else some (c.retry 0)

/-- Read the clock. -/
def Ctx.read (c : Ctx) (nowMs : BitVec 32) : Ctx :=
  let hi := Ms.high c.tickMs c.tickHi nowMs
  {c with tickMs := nowMs,tickHi := hi,nowMs := Ms.join hi nowMs}

/-- Operands of `start` and `inform`, with the address the block names. -/
structure StartArgs where
  (xid rand offeredIp : BitVec 32)

/-- The context of an exchange that starts. -/
def Ctx.begin (c : Ctx) (a : StartArgs) : Ctx :=
  let c := {c with xid := a.xid,retries := 0,owed := none,sent := none,secs := 0,sentMs := c.nowMs}
  if a.offeredIp≠0 then {c with offeredIp := a.offeredIp,state := .initReboot,retryMs := c.nowMs}
  else {c with state := .selecting,retryMs := Ms.add c.nowMs (1000+(draw a.rand 9000 0x3FFF).toNat)}

/-- A call with its operands. -/
inductive Call
  | bind (settings : Option Settings)
  | start (a : StartArgs)
  | stop
  | input (msg : Option Octets) (len : ℕ)
  | build (out : Option Octets) (cap : ℕ) (rand : BitVec 32)
  | tick | release | decline
  | inform (a : StartArgs)

variable (cfg : Config)

/-- Take the configuration, `idemip_dhcp4_bind`. -/
def bind (w : Work) (settings : Option Settings) : Work :=
  match settings with
  | none => w.report .err
  | some s =>
    if s.chaddr.isNone ∨ s.hlen=0 ∨ 16 < s.hlen ∨ cfg.netifCount ≤ s.netif then w.report .err
    else {ctx := {w.ctx with cfg := some s,state := .init},io := {w.io with state := .init,status := .ok}}

/-- Start an exchange, `idemip_dhcp4_start`. -/
def start (w : Work) (a : StartArgs) (nowMs : BitVec 32) : Work :=
  if w.ctx.cfg.isNone ∨ w.ctx.state≠.init then w.report .err
  else
    let c := w.ctx.read nowMs
    if c.nowMs < c.retryMs then {w with ctx := c}.report .busy else (w.become (c.begin a)).report .ok

/-- Halt, `idemip_dhcp4_stop`. -/
def stop (w : Work) : Work :=
  if w.ctx.cfg.isNone then w.report .err
  else
    let w := w.become w.ctx.halt
    {w with ctx := {w.ctx with retryMs := w.ctx.nowMs}}.report .ok

/-- A message comes in, `idemip_dhcp4_input`. -/
def input (w : Work) (msg : Option Octets) (len : ℕ) : Work :=
  let w := {w with io := {w.io with msgType := 0,dns := none,dnsCount := 0}}
  match w.ctx.cfg with
  | none => w.report .err
  | some s =>
    let (w,took) := take w s msg len
    w.publish.report (if took then .ok else .err)

/-- Write the message that is owed, `idemip_dhcp4_build`. -/
def build (w : Work) (out : Option Octets) (cap : ℕ) (rand : BitVec 32) : Work :=
  let w := {w with io := {w.io with len := 0}}
  match w.ctx.cfg,out with
  | some s,some out =>
    if cap<300 then w.report .err
    else
      match w.ctx.owed with
      | none => w.report .busy
      | some m =>
        if w.ctx.serverId=0 ∧ (m=.release ∨ m=.decline ∨
            m=.request ∧ (w.ctx.state=.requesting ∨ w.ctx.state=.renewing)) then w.report .err
        else (write w s m out rand).report .ok
  | _,_ => w.report .err

/-- The clock moves on, `idemip_dhcp4_tick`. -/
def tick (w : Work) (nowMs : BitVec 32) : Work :=
  if w.ctx.cfg.isNone then w.report .err
  else
    let c := w.ctx.read nowMs
    match run c with
    | none => (w.become c).report .busy
    | some c => (w.become c).report .ok

/-- A lease that names its server and address is given up or declined. -/
def owe (w : Work) (states : State → Bool) (m : MsgType) : Work :=
  let c := w.ctx
  if c.cfg.isNone ∨ states c.state=false ∨ c.serverId=0 ∨ c.offeredIp=0 then w.report .err
  else (w.become {c with owed := some m,retries := 0}).report .ok

/-- Give the address up, `idemip_dhcp4_release`. -/
def release (w : Work) : Work := owe w State.leased .release

/-- Say that another host uses the address, `idemip_dhcp4_decline`. -/
def decline (w : Work) : Work := owe w (· == .bound) .decline

/-- Ask for parameters alone, `idemip_dhcp4_inform`. -/
def inform (w : Work) (a : StartArgs) (nowMs : BitVec 32) : Work :=
  if w.ctx.cfg.isNone ∨ w.ctx.state≠.init ∨ a.offeredIp=0 then w.report .err
  else
    (w.become {w.ctx.read nowMs with
      xid := a.xid,offeredIp := a.offeredIp,secs := 0,retries := 0,owed := some .inform,sent := none}).report .ok

/-- What a call does at a reading of the clock. -/
def step (w : Work) (nowMs : BitVec 32) : Call → Work
  | .bind settings => bind cfg w settings
  | .start a => start w a nowMs
  | .stop => stop w
  | .input msg len => input w msg len
  | .build out cap rand => build w out cap rand
  | .tick => tick w nowMs
  | .release => release w
  | .decline => decline w
  | .inform a => inform w a nowMs

end Model

section Moves

open BitVec

/-- A message the client takes, with its options. -/
structure Taken (c : Ctx) (m : Octets) (len : ℕ) (o : Opts) (type : BitVec 8) : Prop where
  answers : ∃ s,c.cfg=some s ∧ answers c s m len
  options : parse m len=some o
  type : o.msgType=some type

/-- What one call does to the context, and how it reports. -/
inductive Moves (c : Ctx) (nowMs : BitVec 32) : Call → Status → Ctx → Prop
  | kept {call : Call} {st : Status} (hstart : st=.busy → ∀ a,call≠.start a) (hok : st≠.ok)
      (htick : call=.tick → c.cfg=none) : Moves c nowMs call st c
  | bind (s : Settings) : Moves c nowMs (.bind (some s)) .ok {c with cfg := some s,state := .init}
  | waits (a : StartArgs) (hstate : c.state=.init) (h : (c.read nowMs).nowMs < c.retryMs) :
      Moves c nowMs (.start a) .busy (c.read nowMs)
  | begins (a : StartArgs) (ip : BitVec 32) (st : State) (t : ℕ) (hcfg : c.cfg≠none) (hstate : c.state=.init)
      (hst : st=.initReboot ∨ st=.selecting) : Moves c nowMs (.start a) .ok {c.read nowMs with
        xid := a.xid,retries := 0,owed := none,sent := none,secs := 0,sentMs := (c.read nowMs).nowMs,offeredIp := ip,
        state := st,retryMs := t}
  | stops : Moves c nowMs .stop .ok {c.halt with retryMs := c.nowMs}
  | selects {m : Octets} {len : ℕ} {o : Opts} (h : Taken c m len o 2) (hstate : c.state=.selecting) :
      Moves c nowMs (.input (some m) len) .ok ((c.adopt o).select o m)
  | informed {m : Octets} {len : ℕ} {o : Opts} (h : Taken c m len o 5) (hsent : c.sent=some .inform) :
      Moves c nowMs (.input (some m) len) .ok {c.adopt o with sent := none,owed := none,retries := 0}
  | leases {m : Octets} {len : ℕ} {o : Opts} (h : Taken c m len o 5) (hsent : c.sent≠some .inform)
      (hstate : c.state.asking) : Moves c nowMs (.input (some m) len) .ok ((c.adopt o).lease o m)
  | refused {m : Octets} {len : ℕ} {o : Opts} (h : Taken c m len o 6) (hstate : c.state.asking) :
      Moves c nowMs (.input (some m) len) .ok c.halt
  | gives {out : Option Octets} {cap : ℕ} {rand : BitVec 32} (howed : c.owed=some .release) :
      Moves c nowMs (.build out cap rand) .ok {c.halt with retryMs := c.nowMs}
  | spurns {out : Option Octets} {cap : ℕ} {rand : BitVec 32} (howed : c.owed=some .decline) :
      Moves c nowMs (.build out cap rand) .ok {c.halt with retryMs := Ms.add c.nowMs 10000}
  | writes {out : Option Octets} {cap : ℕ} {rand : BitVec 32} (m : MsgType) (n t : ℕ) (howed : c.owed=some m)
      (hm : m≠.release ∧ m≠.decline) : Moves c nowMs (.build out cap rand) .ok
        {c with sentMs := c.nowMs,sent := some m,owed := none,retries := n,retryMs := t}
  | releases (hstate : c.state.leased) : Moves c nowMs .release .ok {c with owed := some .release,retries := 0}
  | declines (hstate : c.state=.bound) : Moves c nowMs .decline .ok {c with owed := some .decline,retries := 0}
  | informs (a : StartArgs) (hstate : c.state=.init) : Moves c nowMs (.inform a) .ok {c.read nowMs with
      xid := a.xid,offeredIp := a.offeredIp,secs := 0,retries := 0,owed := some .inform,sent := none}
  | idles (h : run (c.read nowMs)=none) : Moves c nowMs .tick .busy (c.read nowMs)
  | runs {c' : Ctx} (h : run (c.read nowMs)=some c') : Moves c nowMs .tick .ok c'

/-- What the clock does in a state. -/
inductive Turn (c : Ctx) : Ctx → Prop
  | asks (s : State) (h : c.state=.initReboot ∧ s=.rebooting ∨ c.state.leased ∧ (s=.renewing ∨ s=.rebinding)) :
      Turn c (c.ask s)
  | sends (m : Option MsgType) (hm : m=c.sent ∨ m=some .discover ∧ c.state=.selecting) (hstate : c.state≠.bound) :
      Turn c {c with owed := m,sent := m}
  | ends (h : c.state.leased ∧ c.expireMs ≤ c.nowMs ∨ c.state.leased=false ∧ c.retryMs ≤ c.nowMs) : Turn c c.halt
  | quits (hstate : c.state=.init) : Turn c {c with sent := none,retries := 0}

variable {w : Work} {c : Ctx} {now : BitVec 32}

/-- What the clock does is one of the turns, and nothing else was owed. -/
theorem run_turn {c' : Ctx} (h : run c=some c') : Turn c c' ∧ c.owed=none := by
  unfold run at h
  split at h
  · cases h
  rename_i ho
  refine ⟨?_,Option.not_isSome_iff_eq_none.mp ho⟩
  have hr : ∀ tries,(c.state.leased → tries=0) → c.retryMs ≤ c.nowMs → c.state≠.bound → Turn c (c.retry tries) := by
    intro tries hls hd hb
    unfold Ctx.retry
    split
    · rename_i ht
      exact .ends (.inr ⟨eq_false_of_ne_true fun hl => ht.1 (hls hl),hd⟩)
    · exact .sends _ (.inl rfl) hb
  -- the three states that hold a lease share their turns
  have hh : c.state.leased → (if timed c.leaseS ∧ decide (c.expireMs ≤ c.nowMs) then some c.halt
      else if c.state≠.rebinding ∧ timed c.t2S ∧ decide (c.t2Ms ≤ c.nowMs) then some (c.ask .rebinding)
      else if c.state=.bound ∧ timed c.t1S ∧ decide (c.t1Ms ≤ c.nowMs) then some (c.ask .renewing)
      else if c.state=.bound ∨ decide (c.retryMs ≤ c.nowMs)=false then none else some (c.retry 0))=some c' → Turn c c' := by
    intro hls h
    split at h
    · rename_i he
      cases h
      exact .ends (.inl ⟨hls,of_decide_eq_true he.2⟩)
    split at h
    · cases h
      exact .asks _ (.inr ⟨hls,.inr rfl⟩)
    split at h
    · cases h
      exact .asks _ (.inr ⟨hls,.inl rfl⟩)
    split at h
    · cases h
    rename_i hd
    cases h
    exact hr 0 (fun _ => rfl) (by simpa using (not_or.mp hd).2) (not_or.mp hd).1
  cases hs : c.state with
  | selecting =>
    rw [hs] at h
    dsimp only at h
    rw [←hs] at h
    split at h <;> cases h
    exact .sends _ (.inr ⟨rfl,hs⟩) (by rw [hs]; nofun)
  | initReboot =>
    rw [hs] at h
    dsimp only at h
    split at h <;> cases h
    exact .asks _ (.inl ⟨hs,rfl⟩)
  | requesting | rebooting =>
    rw [hs] at h
    dsimp only at h
    split at h <;> cases h
    rename_i hd
    refine hr 4 (fun hl => ?_) (of_decide_eq_true hd) (by rw [hs]; nofun)
    rw [hs] at hl
    cases hl
  | init =>
    rw [hs] at h
    dsimp only at h
    rw [←hs] at h
    split at h
    · cases h
    rename_i hsn
    split at h <;> cases h
    · exact .quits hs
    · rw [←not_not.mp (not_or.mp hsn).1]
      exact .sends _ (.inl rfl) (by rw [hs]; nofun)
  | bound | renewing | rebinding =>
    refine hh (by rw [hs]; rfl) ?_
    rw [hs] at h ⊢
    exact h

/-- A lease that ended is dropped, unless a message is owed. -/
theorem run_late (ho : c.owed=none) (hl : c.state.leased) (ht : timed c.leaseS)
    (hd : c.expireMs ≤ c.nowMs) : run c=some c.halt := by
  unfold run
  rw [if_neg (by rw [ho]; nofun)]
  cases hs : c.state with
  | bound | renewing | rebinding => exact if_pos ⟨ht,decide_eq_true hd⟩
  | _ =>
    rw [hs] at hl
    cases hl

theorem take_moves {s : Settings} (hs : w.ctx.cfg=some s) {m : Octets} {len : ℕ} {r : Work × Bool}
    (hr : take w s (some m) len=r) : Moves w.ctx now (.input (some m) len) (if r.2 then .ok else .err) r.1.ctx := by
  have hk : ∀ v : Work,(v,false)=r → v.ctx=w.ctx →
      Moves w.ctx now (.input (some m) len) (if r.2 then .ok else .err) r.1.ctx := by
    intro v hr hv
    rw [←hr,←hv]
    exact .kept nofun nofun nofun
  dsimp only [take] at hr
  split at hr
  · exact hk w hr rfl
  rename_i ha
  split at hr
  · exact hk w hr rfl
  rename_i o ho
  split at hr
  · exact hk w hr rfl
  rename_i type hty
  have ht : Taken w.ctx m len o type := ⟨⟨s,hs,by simpa using ha⟩,ho,hty⟩
  split at hr
  · rename_i htw
    rw [htw] at ht
    unfold offer at hr
    split at hr
    · exact hk _ hr rfl
    rename_i hsl
    rw [←hr]
    exact .selects ht (not_not.mp (not_or.mp hsl).1)
  split at hr
  · rename_i hf
    rw [hf] at ht
    unfold ack at hr
    split at hr
    · rename_i hsn
      rw [←hr]
      exact .informed ht hsn
    rename_i hsn
    split at hr
    · exact hk _ hr rfl
    rename_i hst
    rw [←hr]
    exact .leases ht hsn (by simpa using hst)
  split at hr
  · rename_i hsx
    rw [hsx] at ht
    unfold nak at hr
    split at hr
    · exact hk _ hr rfl
    rename_i hst
    rw [←hr]
    exact .refused ht (by simpa using hst)
  · exact hk _ hr rfl

/-- Every call is one of the moves. -/
theorem step_moves (cfg : Config) (w : Work) (now : BitVec 32) (call : Call) :
    Moves w.ctx now call (step cfg w now call).io.status (step cfg w now call).ctx := by
  cases call with
  | bind settings =>
    dsimp only [step,bind]
    split
    · exact .kept nofun nofun nofun
    split
    · exact .kept nofun nofun nofun
    · exact .bind _
  | start a =>
    dsimp only [step,start]
    split
    · exact .kept nofun nofun nofun
    rename_i hb
    have hst : w.ctx.state=.init := not_not.mp (not_or.mp hb).2
    split
    · rename_i hw
      exact .waits a hst hw
    have hc : w.ctx.cfg≠none := fun hn => (not_or.mp hb).1 (by rw [hn]; rfl)
    dsimp only [Work.report,Work.become,Work.publish,Ctx.begin]
    split
    · exact .begins a _ _ _ hc hst (.inl rfl)
    · exact .begins a _ _ _ hc hst (.inr rfl)
  | stop =>
    dsimp only [step,stop]
    split
    · exact .kept nofun nofun nofun
    · exact .stops
  | input msg len =>
    dsimp only [step,input]
    split
    · exact .kept nofun nofun nofun
    rename_i s hs
    cases msg with
    | none => exact .kept nofun nofun nofun
    | some m => exact take_moves (w := {w with io := {w.io with msgType := 0,dns := none,dnsCount := 0}}) hs rfl
  | build out cap rand =>
    dsimp only [step,build]
    split
    · split
      · exact .kept nofun nofun nofun
      split
      · exact .kept (fun _ _ => nofun) nofun nofun
      rename_i m ho
      split
      · exact .kept nofun nofun nofun
      dsimp only [Work.report,write,Work.become,Work.publish,Ctx.wrote]
      split
      · rename_i hm
        exact .gives (hm ▸ ho)
      rename_i hr
      split
      · rename_i hm
        exact .spurns (hm ▸ ho)
      · rename_i hd
        exact .writes m _ _ ho ⟨hr,hd⟩
    · exact .kept nofun nofun nofun
  | tick =>
    dsimp only [step,tick]
    split
    · rename_i hn
      exact .kept nofun nofun fun _ => Option.isNone_iff_eq_none.mp hn
    split
    · rename_i hrn
      exact .idles hrn
    · rename_i hrn
      exact .runs hrn
  | release =>
    dsimp only [step,release,owe]
    split
    · exact .kept nofun nofun nofun
    · rename_i hh
      exact .releases (by simpa using (not_or.mp (not_or.mp hh).2).1)
  | decline =>
    dsimp only [step,decline,owe]
    split
    · exact .kept nofun nofun nofun
    · rename_i hh
      exact .declines (by simpa using (not_or.mp (not_or.mp hh).2).1)
  | inform a =>
    dsimp only [step,inform]
    split
    · exact .kept nofun nofun nofun
    · rename_i hb
      exact .informs a (not_not.mp (not_or.mp (not_or.mp hb).2).1)

/-- T1 comes before T2 and that before the end of the lease, counted on the clock from the request on. -/
def Ctx.Ordered (c : Ctx) : Prop :=
  let since t := (t+(2^64-c.sentMs%2^64))%2^64
  since c.t1Ms < since c.t2Ms ∧ since c.t2Ms < since c.expireMs

theorem times_ordered_iff (o : Opts) {lease : BitVec 32} (h : timed lease) :
    (times o lease).1<(times o lease).2 ∧ (times o lease).2<lease ↔
      8≤lease ∨ ∃ t2,o.t2S=some t2 ∧ o.t1S.getD (lease>>>1)<t2 ∧ t2<lease := by
  have hh : (lease>>>1).toNat=lease.toNat/2 := toNat_ushiftRight ..
  have he : (lease>>>3).toNat=lease.toNat/8 := by
    rw [toNat_ushiftRight]
    exact Nat.shiftRight_eq_div_pow _ 3
  have hl : (lease-lease>>>3).toNat=lease.toNat-lease.toNat/8 := by
    rw [toNat_sub_of_le (by rw [le_def,he]; omega),he]
  have heg : 8≤lease ↔ 8≤lease.toNat := le_def
  unfold times
  rw [if_pos h]
  by_cases hp : o.t1S.getD (lease>>>1)<o.t2S.getD (lease-lease>>>3) ∧ o.t2S.getD (lease-lease>>>3)<lease
  · rw [if_pos hp]
    refine iff_of_true hp ?_
    cases ht : o.t2S with
    | some t2 =>
      rw [ht] at hp
      exact .inr ⟨t2,rfl,hp⟩
    | none =>
      rw [ht] at hp
      have hlt : (lease-lease>>>3).toNat<lease.toNat := hp.2
      exact .inl (heg.2 (by omega))
  rw [if_neg hp,heg]
  simp only [lt_def,hh,hl]
  constructor
  · exact fun hdefault => .inl (by omega)
  · rintro (hlong | ⟨t2,ht,hb⟩)
    · omega
    · rw [ht] at hp
      exact absurd hb hp

/-- The times of a lease that ends are in order exactly if it lasts eight seconds, or T2 comes with it in order. -/
theorem ack_ordered_iff (w : Work) (o : Opts) (msg : Octets) (haccepted : (ack w o msg).2=true) (hinform : w.ctx.sent≠some .inform)
    (htimed : timed (o.leaseS.getD w.ctx.leaseS)=true) :
    let lease := o.leaseS.getD w.ctx.leaseS
    (ack w o msg).1.ctx.leaseS=lease ∧ ((ack w o msg).1.ctx.Ordered ↔
      8≤lease ∨ ∃ t2,o.t2S=some t2 ∧ o.t1S.getD (lease>>>1)<t2 ∧ t2<lease) := by
  have hack : (ack w o msg).1.ctx=(w.ctx.adopt o).lease o msg := by
    unfold ack at haccepted ⊢
    rw [if_neg hinform] at haccepted ⊢
    split_ifs at haccepted ⊢
    rfl
  have hsince : ∀ t : BitVec 32,(Ms.add w.ctx.sentMs (Ms.fromS t)+(2^64-w.ctx.sentMs%2^64))%2^64=1000*t.toNat := by
    intro t
    have hlt := t.isLt
    rw [Ms.fromS_eq,Ms.add]
    omega
  intro lease
  rw [hack]
  refine ⟨rfl,Iff.trans ?_ (times_ordered_iff o htimed)⟩
  show let since t := (Ms.add w.ctx.sentMs (Ms.fromS t)+(2^64-w.ctx.sentMs%2^64))%2^64
    since (times o lease).1 < since (times o lease).2 ∧ since (times o lease).2 < since lease ↔ _
  simp only [hsince,lt_def]
  omega

/-- A request was sent at the start of the clock. -/
def requested : Work := {ctx := {state := .requesting,sent := some .request}}

/-- An acknowledgment of ten minutes. -/
theorem ack_ordered_minutes : (ack requested {leaseS := some 600} .zero).1.ctx.Ordered :=
  ((ack_ordered_iff requested {leaseS := some 600} .zero rfl nofun rfl).2).2 (.inl (by decide))

/-- Of five seconds: T2 is the end of the lease. -/
theorem short_lease_unordered :
    let c := (ack requested {leaseS := some 5} .zero).1.ctx
    (c.t1Ms,c.t2Ms,c.expireMs)=(2000,5000,5000) ∧ ¬c.Ordered := by
  unfold Ctx.Ordered
  decide

end Moves

end IdemIp.Dhcp4
