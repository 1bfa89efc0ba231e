import IdemIp.IpHeaders
import IdemIp.TokenBucket

/-!
# ICMP error messages, `icmp_in.c` and `icmp6_in.c`

An error message is built unless a rule of RFC 1122 or of RFC 4443 section 2.4
forbids it, the buffer is short of it, or the bucket of the rate limit, asked last,
is empty.
-/

namespace IdemIp.IcmpIn

open TokenBucket

/-- Why no message was built, `IDEMIP_ICMP_IN_SUPPRESS_*`. -/
inductive Suppress
  | none | icmpError | dstBcast | dstMcast | linkBcast | fragment | src | redirect | rate
deriving DecidableEq

/-- Operands of `error`, `IcmpInErrArgs`. -/
structure ErrArgs where
  datagram : Octets
  len : ℕ
  out : Octets
  outCap : ℕ
  (ifMask word nowMs : BitVec 32)
  (type code : BitVec 8)
  /-- The datagram came as a link-layer broadcast. -/
  linkBcast : Bool

/-- Result members `error` writes, `IcmpInIo`, and the buffer it builds in. -/
structure Io where
  status : Status
  outLen : ℕ
  (src dst : BitVec 32)
  (type code : BitVec 8)
  suppress : Suppress
  tokens : ℕ
  out : Octets

/-- The caller's borrow, `IcmpInCtx` and the operand block. -/
structure Work where
  /-- `clear` ran. -/
  ready : Bool
  bucket : Bucket
  io : Io

/-- The high-order bits 1110, `icmp_in_is_multicast`. -/
def isMulticast (addr : BitVec 32) : Bool := addr>>>28==0xE

/-- The high-order bits 1111, `icmp_in_is_class_e`. -/
def isClassE (addr : BitVec 32) : Bool := addr>>>28==0xF

/-- Network mask by the leading bits, `icmp_in_classful_mask`. -/
def classfulMask (addr : BitVec 32) : BitVec 32 :=
  if addr &&& 0x80000000=0 then 0xFF000000
  else if addr &&& 0x40000000=0 then 0xFFFF0000
  else if addr &&& 0x20000000=0 then 0xFFFFFF00
  else 0xFFFFFFFF

/-- The four broadcast forms of RFC 1122, `icmp_in_is_broadcast`. -/
def isBroadcast (addr ifMask : BitVec 32) : Bool :=
  if addr=0xFFFFFFFF then true
  else if isMulticast addr || isClassE addr then false
  else if ifMask≠0xFFFFFFFF ∧ addr ||| ifMask=0xFFFFFFFF then true
  else addr ||| classfulMask addr==0xFFFFFFFF

/-- The source names one host, `icmp_in_src_is_single_host`. -/
def srcIsSingleHost (src ifMask : BitVec 32) : Bool :=
  if src=0 ∨ src>>>24=127 then false
  else if isMulticast src || isClassE src then false
  else !isBroadcast src ifMask

/-- The types RFC 1122 groups as errors, `idemip_icmp_is_error`. -/
def isError (type : BitVec 8) : Bool := type==3 || type==4 || type==5 || type==11 || type==12

/-- The rules an error message is refused by, `icmp_in_suppressed`. -/
def suppressed (a : ErrArgs) : Suppress :=
  let p := a.datagram
  if Ip4.proto p=1 ∧ Ip4.fragUnits p=0 ∧ Ip4.hdrLen p+4≤Ip4.totalLen p ∧ isError (p (Ip4.hdrLen p))=true then .icmpError
  else if isMulticast (Ip4.dst p) then .dstMcast
  else if isBroadcast (Ip4.dst p) a.ifMask then .dstBcast
  else if a.linkBcast then .linkBcast
  else if Ip4.fragUnits p≠0 then .fragment
  else if !srcIsSingleHost (Ip4.src p) a.ifMask then .src
  else .none

variable (cfg : Config)

/-- The bucket of RFC 1812's rate limit. -/
def rate : Rate := ⟨cfg.icmp4ErrBucket,cfg.icmp4ErrTokenMs,cfg.icmp4ErrBucket_pos,cfg.icmp4ErrTokenMs_pos,cfg.icmp4ErrBucketMs_lt⟩

/-- Credit the bucket, `icmp_in_refill`. -/
def refill (b : Bucket) (nowMs : BitVec 32) : Bucket := (rate cfg).refill b nowMs

/-- Octets of the datagram an error carries: its header and eight of its data. -/
def quoteLen (p : Octets) : ℕ := min (Ip4.hdrLen p+8) (Ip4.totalLen p)

/-- The head of an error message and its checksum, `idemip_icmp_build_error`. -/
def buildError (m : Octets) (type code : BitVec 8) (word : BitVec 32) (len : ℕ) : Octets :=
  let m := (((m.wr8 0 type).wr8 1 code).wr16 2 0).wr32 4 word
  m.wr16 2 (Checksum.cksum m len)

/-- A full bucket and the mark, `idemip_icmp_in_clear`. -/
def clear : Work := ⟨true,⟨cfg.icmp4ErrBucket,0⟩,⟨.ok,0,0,0,0,0,.none,0,.zero⟩⟩

/-- Build an error message about a datagram, `idemip_icmp_in_error`. -/
def error (w : Work) (a : ErrArgs) : Work :=
  let p := a.datagram
  let io : Io := ⟨.err,0,0,0,0,0,.none,0,a.out⟩
  if w.ready=false then {w with io}
  else if Ip4.verify p a.len=false then {w with io}
  else
    let io := {io with type := a.type,code := a.code}
    if isError a.type=false then {w with io}
    else if a.type=5 then {w with io := {io with suppress := .redirect}}
    else
      let io := {io with suppress := suppressed a}
      let outLen := 8+quoteLen p
      if io.suppress≠.none ∨ a.outCap<outLen then {w with io}
      else
        let b := refill cfg w.bucket a.nowMs
        if b.tokens=0 then ⟨w.ready,b,{io with tokens := b.tokens,suppress := .rate,status := .busy}⟩
        else
          let b := {b with tokens := b.tokens-1}
          let out := buildError (a.out.copy 8 p (quoteLen p)) a.type a.code a.word outLen
          ⟨w.ready,b,{io with tokens := b.tokens,out,outLen,src := Ip4.dst p,dst := Ip4.src p,status := .ok}⟩

/-- No rule forbids a message and the buffer holds it: only the rate can refuse it. -/
def allowed (a : ErrArgs) : Bool :=
  Ip4.verify a.datagram a.len && isError a.type && (a.type != 5) && suppressed a==.none && decide (8+quoteLen a.datagram≤a.outCap)

end IdemIp.IcmpIn

namespace IdemIp.Icmp6In

open TokenBucket

/-- Why no message was built, `IDEMIP_ICMP6_IN_SUPPRESS_*`. -/
inductive Suppress
  | none | error | redirect | dstMcast | linkMcast | linkBcast | src | rate
deriving DecidableEq

/-- Operands of `error`, `Icmp6InErrArgs`. -/
structure ErrArgs where
  invoking : Octets
  len : ℕ
  out : Octets
  outCap : ℕ
  ifAddr : Octets
  (word nowMs : BitVec 32)
  (type code : BitVec 8)
  (linkMcast linkBcast : Bool)
  /-- The source is known to be an anycast address. -/
  srcAnycast : Bool
  /-- The destination is a unicast address of this node. -/
  dstLocalUnicast : Bool

/-- Result members `error` writes, `Icmp6InIo`, and the buffer it builds in. -/
structure Io where
  status : Status
  outLen : ℕ
  (src dst : Option Octets)
  (type code : BitVec 8)
  suppress : Suppress
  tokens : ℕ
  out : Octets

/-- The caller's borrow, `Icmp6InCtx` and the operand block. -/
structure Work where
  /-- `clear` ran. -/
  ready : Bool
  bucket : Bucket
  io : Io

/-- Source address of a packet. -/
def srcOf (p : Octets) : Octets := p.drop 8

/-- Destination address of a packet. -/
def dstOf (p : Octets) : Octets := p.drop 24

/-- `icmp6_in_is_multicast`. -/
def isMulticast (addr : Octets) : Bool := addr 0==0xFF

/-- `icmp6_in_is_unspecified`. -/
def isUnspecified (addr : Octets) : Bool := addr.bytesZero 16

/-- Type of the ICMPv6 message the packet itself carries, `icmp6_in_invoking_type`. -/
def invokingType (p : Octets) (len : ℕ) : Option (BitVec 8) :=
  let c := Ip6.walk p len
  if c.ok=false ∨ c.nextHdr≠58 then none
  else if c.fragmented=true ∧ Ip6.fragOffsetBytes (p.drop c.fragHdr)≠0 then none
  else if len < c.offset+4 then none
  else some (p c.offset)

/-- The two exceptions to the multicast rules, `icmp6_in_mcast_exception`. -/
def mcastException (a : ErrArgs) (avail : ℕ) : Bool :=
  a.type==2 || (a.type==4 && a.code==2 && decide (a.word.toNat<avail) && a.invoking a.word.toNat &&& 0xC0==0x80)

/-- The six rules of section 2.4 (e), `icmp6_in_suppressed`. -/
def suppressed (a : ErrArgs) (avail : ℕ) : Suppress :=
  let p := a.invoking
  let invoked := invokingType p avail
  let exception := mcastException a avail
  if invoked.any fun t => t &&& 0x80==0 then .error
  else if invoked=some 137 then .redirect
  else if isMulticast (dstOf p) && !exception then .dstMcast
  else if a.linkMcast && !exception then .linkMcast
  else if a.linkBcast && !exception then .linkBcast
  else if isUnspecified (srcOf p) || isMulticast (srcOf p) || a.srcAnycast then .src
  else .none

variable (cfg : Config)

/-- The bucket of section 2.4 (f). -/
def rate : Rate := ⟨cfg.icmp6ErrBucket,cfg.icmp6ErrTokenMs,cfg.icmp6ErrBucket_pos,cfg.icmp6ErrTokenMs_pos,cfg.icmp6ErrBucketMs_lt⟩

/-- Credit the bucket, `icmp6_in_refill`. -/
def refill (b : Bucket) (nowMs : BitVec 32) : Bucket := (rate cfg).refill b nowMs

/-- Octets of the packet there are: as its Payload Length says, within those readable. -/
def availOf (a : ErrArgs) : ℕ := min (40+Ip6.payloadLen a.invoking) a.len

/-- Octets of the packet an error carries, `idemip_icmp6_err_quote_len`. -/
def errQuoteLen (avail : ℕ) : ℕ := if 1232<avail then 1232 else avail

/-- Head and quote of an error message, `idemip_icmp6_err_build`. -/
def errBuild (m : Octets) (type code : BitVec 8) (word : BitVec 32) (invoking : Octets) (avail : ℕ) : Octets :=
  ((((m.wr8 0 type).wr8 1 code).wr16 2 0).wr32 4 word).copy 8 invoking (errQuoteLen avail)

/-- Checksum over a message and its pseudo-header, `idemip_icmp6_cksum_compute`. -/
def cksumCompute (m : Octets) (len : ℕ) (src dst : Octets) : BitVec 16 :=
  Checksum.final (Checksum.accum (Checksum.pseudo6 0 58 src dst (BitVec.ofNat 32 len)) m len)

/-- A full bucket and the mark, `idemip_icmp6_in_clear`. -/
def clear : Work := ⟨true,⟨cfg.icmp6ErrBucket,0⟩,⟨.ok,0,none,none,0,0,.none,0,.zero⟩⟩

/-- Build an error message about a packet, `idemip_icmp6_in_error`. -/
def error (w : Work) (a : ErrArgs) : Work :=
  let p := a.invoking
  let io : Io := ⟨.err,0,none,none,0,0,.none,w.io.tokens,a.out⟩
  if w.ready=false then {w with io}
  else
    let io := {io with tokens := w.bucket.tokens}
    if a.len<40 ∨ Ip6.version p≠6 then {w with io}
    else
      let io := {io with type := a.type,code := a.code}
      if a.type<1 ∨ 4<a.type then {w with io}
      else
        let avail := availOf a
        let io := {io with suppress := suppressed a avail}
        let outLen := 8+errQuoteLen avail
        if io.suppress≠.none ∨ a.outCap<outLen then {w with io}
        else
          let b := refill cfg w.bucket a.nowMs
          if b.tokens=0 then ⟨w.ready,b,{io with tokens := b.tokens,suppress := .rate,status := .busy}⟩
          else
            let b := {b with tokens := b.tokens-1}
            let src := if a.dstLocalUnicast && !isMulticast (dstOf p) then dstOf p else a.ifAddr
            let m := errBuild a.out a.type a.code a.word p avail
            let out := m.wr16 2 (cksumCompute m outLen src (srcOf p))
            ⟨w.ready,b,{io with tokens := b.tokens,out,outLen,src := some src,dst := some (srcOf p),status := .ok}⟩

/-- No rule forbids a message and the buffer holds it: only the rate can refuse it. -/
def allowed (a : ErrArgs) : Bool :=
  decide (40≤a.len) && Ip6.version a.invoking==6 && decide (1≤a.type) && decide (a.type≤4) &&
    suppressed a (availOf a)==.none && decide (8+errQuoteLen (availOf a)≤a.outCap)

end IdemIp.Icmp6In

namespace IdemIp

open StepRun TokenBucket

namespace IcmpIn

variable (cfg : Config)

/-- A call at a time, whose count is the operand's. -/
def callAt (w : Work) (c : ℕ×ErrArgs) : Work := error cfg w {c.2 with nowMs := BitVec.ofNat 32 c.1}

/-- The message of a call is built. -/
def builds (w : Work) (c : ℕ×ErrArgs) : Bool := (callAt cfg w c).io.status==.ok

theorem allowed_iff {a : ErrArgs} : allowed a ↔ ¬Ip4.verify a.datagram a.len=false ∧ ¬isError a.type=false ∧ a.type≠5 ∧
    ¬(suppressed a≠.none ∨ a.outCap<8+quoteLen a.datagram) := by
  simp only [allowed,Bool.and_eq_true,bne_iff_ne,beq_iff_eq,decide_eq_true_eq,and_assoc,not_or,not_not,Nat.not_lt,Bool.not_eq_false]

theorem error_refused (w : Work) (a : ErrArgs) (hw : w.ready) (ha : ¬allowed a) :
    (error cfg w a).ready ∧ (error cfg w a).bucket=w.bucket ∧ ((error cfg w a).io.status==.ok)=false := by
  rw [allowed_iff] at ha
  unfold error
  rw [if_neg (by simp [hw])]
  by_cases hv : Ip4.verify a.datagram a.len=false
  · rw [if_pos hv]
    exact ⟨hw,rfl,rfl⟩
  rw [if_neg hv]
  by_cases he : isError a.type=false
  · rw [if_pos he]
    exact ⟨hw,rfl,rfl⟩
  rw [if_neg he]
  by_cases hr : a.type=5
  · rw [if_pos hr]
    exact ⟨hw,rfl,rfl⟩
  rw [if_neg hr,if_pos (not_not.1 fun hgo => ha ⟨hv,he,hr,hgo⟩)]
  exact ⟨hw,rfl,rfl⟩

theorem error_allowed (w : Work) (a : ErrArgs) (hw : w.ready) (ha : allowed a) :
    let b := refill cfg w.bucket a.nowMs
    (error cfg w a).ready ∧ (error cfg w a).bucket={b with tokens := b.tokens-1} ∧
      (((error cfg w a).io.status==.ok) ↔ b.tokens≠0) := by
  obtain ⟨hv,he,hr,hgo⟩ := allowed_iff.1 ha
  intro b
  unfold error
  rw [if_neg (by simp [hw]),if_neg hv,if_neg he,if_neg hr,if_neg hgo]
  by_cases hz : b.tokens=0
  · rw [if_pos hz]
    refine ⟨hw,?_,by simp [hz]⟩
    rw [hz]
    exact Bucket.ext hz rfl
  · rw [if_neg hz]
    exact ⟨hw,rfl,by simp [hz]⟩

theorem asks : Asks (rate cfg) (callAt cfg) Prod.fst (fun c => allowed c.2) Work.bucket (builds cfg) (fun w => w.ready) := by
  refine Asks.of_cases (fun w c => ?_) fun w c => ?_
  · exact error_refused cfg w {c.2 with nowMs := BitVec.ofNat 32 c.1}
  · exact error_allowed cfg w {c.2 with nowMs := BitVec.ofNat 32 c.1}

end IcmpIn

namespace Icmp6In

variable (cfg : Config)

/-- A call at a time, whose count is the operand's. -/
def callAt (w : Work) (c : ℕ×ErrArgs) : Work := error cfg w {c.2 with nowMs := BitVec.ofNat 32 c.1}

/-- The message of a call is built. -/
def builds (w : Work) (c : ℕ×ErrArgs) : Bool := (callAt cfg w c).io.status==.ok

theorem allowed_iff {a : ErrArgs} : allowed a ↔ ¬(a.len<40 ∨ Ip6.version a.invoking≠6) ∧ ¬(a.type<1 ∨ 4<a.type) ∧
    ¬(suppressed a (availOf a)≠.none ∨ a.outCap<8+errQuoteLen (availOf a)) := by
  simp only [allowed,Bool.and_eq_true,beq_iff_eq,decide_eq_true_eq,and_assoc,not_or,not_not,Nat.not_lt,BitVec.not_lt]

theorem error_refused (w : Work) (a : ErrArgs) (hw : w.ready) (ha : ¬allowed a) :
    (error cfg w a).ready ∧ (error cfg w a).bucket=w.bucket ∧ ((error cfg w a).io.status==.ok)=false := by
  rw [allowed_iff] at ha
  unfold error
  rw [if_neg (by simp [hw])]
  by_cases hh : a.len<40 ∨ Ip6.version a.invoking≠6
  · rw [if_pos hh]
    exact ⟨hw,rfl,rfl⟩
  rw [if_neg hh]
  by_cases ht : a.type<1 ∨ 4<a.type
  · rw [if_pos ht]
    exact ⟨hw,rfl,rfl⟩
  rw [if_neg ht,if_pos (not_not.1 fun hgo => ha ⟨hh,ht,hgo⟩)]
  exact ⟨hw,rfl,rfl⟩

theorem error_allowed (w : Work) (a : ErrArgs) (hw : w.ready) (ha : allowed a) :
    let b := refill cfg w.bucket a.nowMs
    (error cfg w a).ready ∧ (error cfg w a).bucket={b with tokens := b.tokens-1} ∧
      (((error cfg w a).io.status==.ok) ↔ b.tokens≠0) := by
  obtain ⟨hh,ht,hgo⟩ := allowed_iff.1 ha
  intro b
  unfold error
  rw [if_neg (by simp [hw]),if_neg hh,if_neg ht,if_neg hgo]
  by_cases hz : b.tokens=0
  · rw [if_pos hz]
    refine ⟨hw,?_,by simp [hz]⟩
    rw [hz]
    exact Bucket.ext hz rfl
  · rw [if_neg hz]
    exact ⟨hw,rfl,by simp [hz]⟩

theorem asks : Asks (rate cfg) (callAt cfg) Prod.fst (fun c => allowed c.2) Work.bucket (builds cfg) (fun w => w.ready) := by
  refine Asks.of_cases (fun w c => ?_) fun w c => ?_
  · exact error_refused cfg w {c.2 with nowMs := BitVec.ofNat 32 c.1}
  · exact error_allowed cfg w {c.2 with nowMs := BitVec.ofNat 32 c.1}

end Icmp6In

/-- Error messages keep their rate over every run on a count that does not go back, if each call that reaches the
bucket comes in time. -/
theorem error_rate (cfg : Config) : (∀ cs : List (ℕ×IcmpIn.ErrArgs),(cs.Pairwise fun a b => a.1≤b.1) →
      Along (clocked (IcmpIn.callAt cfg) Prod.fst fun c => IcmpIn.allowed c.2)
        (InTime (IcmpIn.rate cfg) Prod.fst (fun c => IcmpIn.allowed c.2) IcmpIn.Work.bucket) ⟨IcmpIn.clear cfg,0⟩ cs →
      Limited (IcmpIn.rate cfg) (IcmpIn.callAt cfg) Prod.fst (fun c => IcmpIn.allowed c.2) (IcmpIn.builds cfg) (IcmpIn.clear cfg) cs) ∧
    ∀ cs : List (ℕ×Icmp6In.ErrArgs),(cs.Pairwise fun a b => a.1≤b.1) →
      Along (clocked (Icmp6In.callAt cfg) Prod.fst fun c => Icmp6In.allowed c.2)
        (InTime (Icmp6In.rate cfg) Prod.fst (fun c => Icmp6In.allowed c.2) Icmp6In.Work.bucket) ⟨Icmp6In.clear cfg,0⟩ cs →
      Limited (Icmp6In.rate cfg) (Icmp6In.callAt cfg) Prod.fst (fun c => Icmp6In.allowed c.2) (Icmp6In.builds cfg) (Icmp6In.clear cfg) cs := by
  constructor
  · intro cs horder ht
    exact (IcmpIn.asks cfg).limited rfl rfl horder ht
  · intro cs horder ht
    exact (Icmp6In.asks cfg).limited rfl rfl horder ht

/-- A port unreachable about a UDP datagram from 10.0.0.1 to 10.0.0.2. -/
def IcmpIn.unreachable : ErrArgs :=
  ⟨.ofList [0x45,0,0,28,0,0,0,0,64,17,0x66,0xCF,10,0,0,1,10,0,0,2],28,.zero,576,0xFFFFFF00,0,0,3,3,false⟩

/-- A port unreachable about a UDP packet from 2001:db8::1 to 2001:db8::2. -/
def Icmp6In.unreachable : ErrArgs :=
  ⟨.ofList ([0x60,0,0,0,0,8,17,64]++[0x20,1,0xD,0xB8]++List.replicate 11 0++[1]++[0x20,1,0xD,0xB8]++List.replicate 11 0++[2]),
    48,.zero,1280,.zero,0,0,1,4,false,false,false,true⟩

/-- One call, and a bucket's time less one interval later eighteen at one instant. -/
def burst {α : Type} (a : α) : List (ℕ×α) := (0,a)::List.replicate 18 (900,a)

/-- The shipped buckets hold ten, and eighteen messages are built at one instant. -/
theorem burst_beyond_bucket : ((burst IcmpIn.unreachable).Pairwise fun a b => a.1≤b.1 ∧ b.1-a.1<2^31) ∧
    ((outputs (IcmpIn.callAt .shipped) (builtAt Prod.fst (IcmpIn.builds .shipped)) (IcmpIn.clear .shipped)
      (burst IcmpIn.unreachable)).filter fun t => 900≤t ∧ t≤900+0).length=18 ∧
    (IcmpIn.rate .shipped).bucket+0/(IcmpIn.rate .shipped).tokenMs=10 ∧
    ((outputs (Icmp6In.callAt .shipped) (builtAt Prod.fst (Icmp6In.builds .shipped)) (Icmp6In.clear .shipped)
      (burst Icmp6In.unreachable)).filter fun t => 900≤t ∧ t≤900+0).length=18 ∧
    (Icmp6In.rate .shipped).bucket+0/(Icmp6In.rate .shipped).tokenMs=10 := by
  refine ⟨?_,?_,rfl,?_,rfl⟩
  · unfold burst
    simp
  · decide +kernel
  · decide +kernel

/-- Two calls an interval apart are in time. -/
theorem error_rate_spaced :
    let cs := [(0,IcmpIn.unreachable),(100,IcmpIn.unreachable)]
    Along (clocked (IcmpIn.callAt .shipped) Prod.fst fun c => IcmpIn.allowed c.2)
        (InTime (IcmpIn.rate .shipped) Prod.fst (fun c => IcmpIn.allowed c.2) IcmpIn.Work.bucket) ⟨IcmpIn.clear .shipped,0⟩ cs ∧
      Limited (IcmpIn.rate .shipped) (IcmpIn.callAt .shipped) Prod.fst (fun c => IcmpIn.allowed c.2) (IcmpIn.builds .shipped)
        (IcmpIn.clear .shipped) cs := by
  intro cs
  have ht : Along (clocked (IcmpIn.callAt .shipped) Prod.fst fun c => IcmpIn.allowed c.2)
      (InTime (IcmpIn.rate .shipped) Prod.fst (fun c => IcmpIn.allowed c.2) IcmpIn.Work.bucket) ⟨IcmpIn.clear .shipped,0⟩ cs :=
    ⟨fun _ => .inl (by decide),fun _ => .inr (.inr (by decide +kernel)),trivial⟩
  exact ⟨ht,(error_rate .shipped).1 cs (by simp [cs]) ht⟩

end IdemIp
