import IdemIp.Checksum
import IdemIp.Config

/-!
# Link and internet headers

What the dispatcher reads ahead of the transport: the type code behind a VLAN
tag or a SNAP header, the checks on an IPv4 header, and the walk along an IPv6
extension chain with its option scan. The field writers of `ipv4.c` change the
field they write and no other, and a header checks once it is sealed.
-/

namespace IdemIp

open Nat

namespace Vlan

/-- Results of a parse, the members of `VlanIo` the dispatcher reads. -/
structure Parsed where
  type : BitVec 16
  payloadOff : ℕ
  vid : BitVec 16
  pcp : BitVec 8
  tagged : Bool
deriving DecidableEq

/-- The VLAN that must not be used, `IDEMIP_VLAN_VID_RESERVED`. -/
def vidReserved : BitVec 16 := 0xFFF

/-- RFC 1042's LLC and SNAP octets, `idemip_llc_is_snap`. -/
def llcIsSnap (p : Octets) : Bool :=
  p 0==170 && p 1==170 && p 2==3 && p 3==0 && p 4==0 && p 5==0

/-- The type code at an offset, or behind the SNAP header there when it is a length. -/
def typeAt (frame : Octets) (len off : ℕ) (type : BitVec 16) : Option (BitVec 16×ℕ) :=
  if type≤1500 then
    if len<off+8 ∨ llcIsSnap (frame.drop off)=false then none
    else some ((frame.drop (off+6)).rd16,off+8)
  else some (type,off)

/-- Read the type code and any tag, `idemip_vlan_parse`. -/
def parse (frame : Octets) (len : ℕ) : Option Parsed :=
  let tpid := (frame.drop 12).rd16
  if len<14 then none
  else if tpid≠0x8100 then
    (typeAt frame len 14 tpid).map fun t => ⟨t.1,t.2,0,0,false⟩
  else if len<18 then none
  else
    let tci := (frame.drop 14).rd16
    (typeAt frame len 18 (frame.drop 16).rd16).map fun t =>
      ⟨t.1,t.2,tci &&& 0xFFF,(tci>>>13 &&& 7).setWidth 8,true⟩

theorem parse_payloadOff {fr : Octets} {len : ℕ} {v : Parsed} (h : parse fr len=some v) :
    14≤v.payloadOff ∧ v.payloadOff≤26 ∧ v.payloadOff≤len := by
  have hat : ∀ {off : ℕ} {type : BitVec 16} {t : BitVec 16×ℕ},off≤len →
      typeAt fr len off type=some t → off≤t.2 ∧ t.2≤off+8 ∧ t.2≤len := by
    intro off type t hoff ht
    unfold typeAt at ht
    split_ifs at ht with hlen hs
    · cases ht
      omega
    · cases ht
      omega
  unfold parse at h
  dsimp only at h
  split_ifs at h with hs htag htshort
  · obtain ⟨t,ht,rfl⟩ := Option.map_eq_some_iff.mp h
    have := hat (by omega) ht
    dsimp only
    omega
  obtain ⟨t,ht,rfl⟩ := Option.map_eq_some_iff.mp h
  have := hat (by omega) ht
  dsimp only
  omega

end Vlan

namespace Ip4

variable (h : Octets)

/-- Version, the high nibble of the first octet. -/
def version : ℕ := (h 0>>>4).toNat

/-- Header octets, four to a word of the IHL. -/
def hdrLen : ℕ := (h 0 &&& 0x0F).toNat*4

def totalLen : ℕ := (h.drop 2).rd16.toNat

def ident : BitVec 16 := (h.drop 4).rd16

/-- The flags and the fragment offset. -/
def flagsFrag : BitVec 16 := (h.drop 6).rd16

def mf : Bool := flagsFrag h &&& 0x2000 != 0

def fragOffsetBytes : ℕ := (flagsFrag h &&& 0x1FFF).toNat*8

/-- Either half of the fragmentation information is set, `idemip_ip4_is_fragment`. -/
def isFragment : Bool := flagsFrag h &&& 0x3FFF != 0

def proto : BitVec 8 := h 9

def src : BitVec 32 := (h.drop 12).rd32

def dst : BitVec 32 := (h.drop 16).rd32

/-- Every check RFC 1122 puts on a received header, `idemip_ip4_verify`. -/
def verify (avail : ℕ) : Bool :=
  20≤avail && version h==4 && 20≤hdrLen h && hdrLen h≤avail && hdrLen h≤totalLen h && totalLen h≤avail &&
    Checksum.valid h (hdrLen h)

theorem verify_bounds {h : Octets} {avail : ℕ} (hv : verify h avail=true) :
    20≤hdrLen h ∧ hdrLen h≤totalLen h ∧ totalLen h≤avail := by
  simp only [verify,Bool.and_eq_true,decide_eq_true_eq] at hv
  omega

end Ip4

namespace Ip6

variable (p : Octets)

/-- Version, the high nibble of the first word. -/
def version (h : Octets) : ℕ := (h.rd32>>>28).toNat

/-- Payload Length, this header not counted. -/
def payloadLen (h : Octets) : ℕ := (h.drop 4).rd16.toNat

/-- Whether a Next Header value is one of RFC 8200's four, `idemip_ip6_nh_is_ext`. -/
def nhIsExt (nh : BitVec 8) : Bool := nh==0 || nh==43 || nh==44 || nh==60

/-- Octets of an extension header, `idemip_ip6_ext_len`. -/
def extLen : ℕ := ((p 1).toNat+1)*8

/-- Octets of an option, `idemip_ip6_opt_len`. -/
def optLen : ℕ := if p 0=0 then 1 else (p 1).toNat+2

def fragOffsetBytes : ℕ := ((p.drop 2).rd16 &&& 0xFFF8).toNat

def fragMore : Bool := (p.drop 2).rd16 &&& 1 != 0

/-- Identification of a Fragment header. -/
def fragIdent : BitVec 32 := (p.drop 4).rd32

/-- What an option scan found. -/
inductive OptScan
  | clean | malformed
  | refused (at_ : ℕ)
deriving DecidableEq

/-- Scan the options of one header, `idemip_ip6_opts_refused`. -/
def optsRefused (p : Octets) (last : ℕ) : ℕ → ℕ → OptScan
  | 0,_ => .clean
  | fuel+1,off =>
    if last≤off then .clean
    else if p off≠0 ∧ last<off+2 then .malformed
    else if last<off+optLen (p.drop off) then .malformed
    else if p off≠0 ∧ p off≠1 ∧ p off &&& 0xC0≠0 then .refused off
    else optsRefused p last fuel (off+optLen (p.drop off))

/-- Where a walk stands, `IdemIpIp6Chain`. -/
structure Chain where
  /-- Octets to the header the walk stands at. -/
  (offset fragHdr : ℕ)
  /-- Octets to the Routing header that stops the packet. -/
  routingHdr : ℕ
  /-- Octets to the Next Header field last read, or to its header. -/
  (nextHdrOff optHdr : ℕ)
  nextHdr : BitVec 8
  hops : ℕ
  fragmented : Bool
  /-- A Routing header with segments left was met. -/
  (routed refused : Bool)
  /-- The walk reached an upper-layer header or fragment data. -/
  ok : Bool
deriving DecidableEq

variable (c : Chain)

/-- Octets the header at hand occupies; a Fragment header is sized by the standard. -/
def Chain.step (p : Octets) : ℕ := if c.nextHdr=44 then 8 else extLen (p.drop c.offset)

def Chain.noteFrag : Chain :=
  if c.nextHdr=44 then {c with fragmented := true,fragHdr := c.offset} else c

/-- Record the first Routing header with segments left. -/
def Chain.noteRouting (p : Octets) : Chain :=
  if c.nextHdr=43 ∧ c.routed=false ∧ p (c.offset+3)≠0 then {c with routed := true,routingHdr := c.offset} else c

/-- Scan the options of a header that carries them; none when an option runs past it. -/
def Chain.noteOptions (p : Octets) : Option Chain :=
  if (c.nextHdr=0 ∨ c.nextHdr=60) ∧ c.refused=false then
    match optsRefused p (c.offset+c.step p) (c.step p) (c.offset+2) with
    | .clean => some c
    | .malformed => none
    | .refused off => some {c with refused := true,optHdr := off}
  else some c

/-- Step over the header at hand. -/
def Chain.advance (p : Octets) : Chain :=
  {c with
    nextHdrOff := c.offset
    nextHdr := p c.offset
    offset := c.offset+c.step p
    hops := (c.hops+1)%2^16}

/-- The loop of `ip6_walk`. -/
def walkFrom (p : Octets) (len : ℕ) : ℕ → Chain → Chain
  | 0,c => c
  | fuel+1,c =>
    if !nhIsExt c.nextHdr then {c with ok := true}
    else if c.nextHdr=0 ∧ c.hops≠0 then c
    else if len < c.offset+8 then c
    else if len < c.offset+c.step p then c
    else if c.nextHdr=44 ∧ fragOffsetBytes (p.drop c.offset)≠0 then
      -- Behind a nonzero Fragment Offset lies fragment data, not a header.
      {c.noteFrag with offset := c.offset+8,hops := (c.hops+1)%2^16,ok := true}
    else
      let d := c.noteFrag.noteRouting p
      match d.noteOptions p with
      | none => d
      | some e => walkFrom p len fuel (e.advance p)

/-- Step the Next Header chain to the upper-layer header, `idemip_ip6_walk`. -/
def walk (len : ℕ) : Chain :=
  let c : Chain := ⟨40,0,0,0,0,59,0,false,false,false,false⟩
  if len<40 then {c with offset := 0}
  else walkFrom p len (len/8+1) {c with nextHdrOff := 6,nextHdr := p 6}

theorem toNat_and_units (v : BitVec 16) : (v &&& 0xFFF8).toNat=v.toNat/8*8 := by
  have hv := v.isLt
  have hl : v.toNat &&& 7=v.toNat%8 := and_two_pow_sub_one_eq_mod v.toNat 3
  have ha : v.toNat &&& 0xFFFF=v.toNat%2^16 := and_two_pow_sub_one_eq_mod v.toNat 16
  have hd : (v.toNat &&& 0xFFF8)%8=0 := by
    have h := and_two_pow_sub_one_eq_mod (v.toNat &&& 0xFFF8) 3
    rw [Nat.and_assoc] at h
    exact h.symm.trans (and_zero _)
  obtain ⟨k,hk⟩ := dvd_of_mod_eq_zero hd
  have hs : 2^3*k ||| v.toNat%8=v.toNat := by
    rw [←hl,show 2^3*k=v.toNat &&& 0xFFF8 from hk.symm,←and_or_distrib_left]
    exact ha.trans (mod_eq_of_lt hv)
  rw [←two_pow_add_eq_or_of_lt (mod_lt _ (by omega))] at hs
  rw [BitVec.toNat_and]
  refine hk.trans ?_
  omega

theorem fragOffsetBytes_dvd : 8 ∣ fragOffsetBytes p := by
  unfold fragOffsetBytes
  rw [toNat_and_units]
  exact Nat.dvd_mul_left 8 _

theorem Chain.eight_le_step : 8 ≤ c.step p := by
  unfold Chain.step extLen
  split_ifs <;> omega

/-- The notes a walk takes leave where it stands and what it reads there. -/
theorem Chain.noted {c e : Chain} {p : Octets} (h : (c.noteFrag.noteRouting p).noteOptions p=some e) :
    e.offset=c.offset ∧ e.nextHdr=c.nextHdr ∧ e.hops=c.hops := by
  have hf : c.noteFrag.offset=c.offset ∧ c.noteFrag.nextHdr=c.nextHdr ∧ c.noteFrag.hops=c.hops := by
    unfold Chain.noteFrag
    split_ifs <;> simp
  have hr : ∀ d : Chain,(d.noteRouting p).offset=d.offset ∧ (d.noteRouting p).nextHdr=d.nextHdr ∧
      (d.noteRouting p).hops=d.hops := by
    intro d
    unfold Chain.noteRouting
    split_ifs <;> simp
  have ho : ∀ d : Chain,d.noteOptions p=some e → e.offset=d.offset ∧ e.nextHdr=d.nextHdr ∧ e.hops=d.hops := by
    intro d hd
    unfold Chain.noteOptions at hd
    split at hd
    · split at hd <;> simp at hd <;> subst hd <;> simp
    simp at hd
    subst hd
    simp
  obtain ⟨h1,h2,h3⟩ := ho _ h
  obtain ⟨h4,h5,h6⟩ := hr c.noteFrag
  exact ⟨h1.trans (h4.trans hf.1),h2.trans (h5.trans hf.2.1),h3.trans (h6.trans hf.2.2)⟩

theorem Chain.advance_offset {c e : Chain} {p : Octets} (h : e.offset=c.offset) (hn : e.nextHdr=c.nextHdr) :
    (e.advance p).offset=c.offset+c.step p := by
  simp only [Chain.advance,Chain.step,h,hn]

end Ip6

end IdemIp

namespace IdemIp.Ip4

open Octets BitVec Checksum

variable (h : Octets)

/-- The datagram may not be fragmented, `idemip_ip4_df`. -/
def df : Bool := flagsFrag h &&& 0x4000 != 0

/-- The fragment offset field, in units of eight octets, `idemip_ip4_frag_units`. -/
def fragUnits : ℕ := (flagsFrag h &&& 0x1FFF).toNat

/-- Octets of data behind a header, `idemip_ip4_payload_len`. -/
def payloadLen : ℕ := totalLen h-hdrLen h

/-- Version 4 and a header length in words, `idemip_ip4_set_ver_ihl`. -/
def setVerIhl (ihl : ℕ) : Octets := h.wr8 0 (0x40 ||| (BitVec.ofNat 8 ihl &&& 0x0F))

/-- `idemip_ip4_set_total_len`. -/
def setTotalLen (len : ℕ) : Octets := h.wr16 2 (BitVec.ofNat 16 len)

/-- `idemip_ip4_set_flags_frag`. -/
def setFlagsFrag (v : BitVec 16) : Octets := h.wr16 6 v

/-- `idemip_ip4_set_cksum`. -/
def setCksum (v : BitVec 16) : Octets := h.wr16 10 v

/-- Seal a header with its checksum, `idemip_ip4_recksum`. -/
def recksum : Octets :=
  let zeroed := setCksum h 0
  setCksum zeroed (Checksum.cksum zeroed (hdrLen zeroed))

section Fields

variable {p q : Octets} {n : ℕ}

theorem hdrLen_le (h : Octets) : hdrLen h≤60 ∧ hdrLen h%4=0 := by
  have hlt : (h 0 &&& 0x0F).toNat≤15 := by
    rw [toNat_and]
    exact Nat.and_le_right
  unfold hdrLen
  omega

theorem totalLen_lt (h : Octets) : totalLen h<2^16 := (h.drop 2).rd16.isLt

theorem fragOffsetBytes_eq (h : Octets) : fragOffsetBytes h=fragUnits h*8 := rfl

/-- The fixed fields lie in the first twenty octets. -/
structure SameFields (p q : Octets) : Prop where
  version : version p=version q
  hdrLen : hdrLen p=hdrLen q
  totalLen : totalLen p=totalLen q
  ident : ident p=ident q
  flagsFrag : flagsFrag p=flagsFrag q
  proto : proto p=proto q
  src : src p=src q
  dst : dst p=dst q

theorem sameFields (h : ∀ i<20,p i=q i) : SameFields p q := by
  have h16 : ∀ k,k+1<20 → (p.drop k).rd16=(q.drop k).rd16 := fun k hk => rd16_congr fun i _ hi => h i (by omega)
  have h32 : ∀ k,k+3<20 → (p.drop k).rd32=(q.drop k).rd32 := fun k hk => rd32_congr fun i _ hi => h i (by omega)
  refine ⟨?_,?_,?_,h16 4 (by decide),h16 6 (by decide),h 9 (by decide),h32 12 (by decide),h32 16 (by decide)⟩
  · unfold Ip4.version
    rw [h 0 (by decide)]
  · unfold Ip4.hdrLen
    rw [h 0 (by decide)]
  · unfold Ip4.totalLen
    rw [h16 2 (by decide)]

theorem SameFields.mf (h : SameFields p q) : mf p=mf q := by
  unfold Ip4.mf
  rw [h.flagsFrag]

theorem SameFields.fragUnits (h : SameFields p q) : fragUnits p=fragUnits q := by
  unfold Ip4.fragUnits
  rw [h.flagsFrag]

theorem words_congr {n i : ℕ} (h : ∀ k < i+2*n,p k=q k) : Checksum.words p n i=Checksum.words q n i := by
  induction n generalizing i with
  | zero => rfl
  | succ n ih =>
    unfold words
    rw [h i (by omega),h (i+1) (by omega),ih fun k hk => h k (by omega)]

theorem valid_congr (hle : hdrLen p=hdrLen q) (h : ∀ i<hdrLen q,p i=q i) :
    Checksum.valid p (hdrLen p)=Checksum.valid q (hdrLen q) := by
  obtain ⟨hmax,hmod⟩ := hdrLen_le q
  rw [hle,Bool.eq_iff_iff,valid_iff (by omega) (by omega),valid_iff (by omega) (by omega),
    words_congr fun k hk => h k (by omega)]

theorem verify_iff {h : Octets} {avail : ℕ} : verify h avail ↔
    version h=4 ∧ 20≤hdrLen h ∧ hdrLen h≤totalLen h ∧ totalLen h≤avail ∧ Checksum.valid h (hdrLen h) := by
  unfold verify
  simp only [Bool.and_eq_true,decide_eq_true_eq,beq_iff_eq]
  constructor
  · rintro ⟨⟨⟨⟨⟨⟨-,hv⟩,h20⟩,-⟩,hle⟩,ht⟩,hc⟩
    exact ⟨hv,h20,hle,ht,hc⟩
  · rintro ⟨hv,h20,hle,ht,hc⟩
    exact ⟨⟨⟨⟨⟨⟨by omega,hv⟩,h20⟩,by omega⟩,hle⟩,ht⟩,hc⟩

theorem verify_congr {avail avail' : ℕ} (hv : verify q avail) (h : ∀ i<hdrLen q,p i=q i)
    (ha : totalLen q≤avail') : verify p avail' := by
  obtain ⟨hvr,h20,hle,-,hc⟩ := verify_iff.1 hv
  have hs := sameFields fun i hi => h i (by omega)
  refine verify_iff.2 ⟨hs.version.trans hvr,by rw [hs.hdrLen]; exact h20,by rw [hs.hdrLen,hs.totalLen]; exact hle,
    by rw [hs.totalLen]; exact ha,?_⟩
  rw [valid_congr hs.hdrLen h]
  exact hc

end Fields

section Writers

variable (h : Octets)

theorem totalLen_setTotalLen {len : ℕ} (hl : len<2^16) : totalLen (setTotalLen h len)=len := by
  unfold totalLen setTotalLen
  rw [rd16_wr16,toNat_ofNat,Nat.mod_eq_of_lt hl]

theorem flagsFrag_setFlagsFrag (v : BitVec 16) : flagsFrag (setFlagsFrag h v)=v := rd16_wr16 h 6 v

theorem version_setVerIhl {ihl : ℕ} (hi : ihl<16) : version (setVerIhl h ihl)=4 ∧ hdrLen (setVerIhl h ihl)=ihl*4 := by
  have h0 : (setVerIhl h ihl) 0=0x40 ||| (BitVec.ofNat 8 ihl &&& 0x0F) := by
    unfold setVerIhl wr8
    rw [if_pos rfl]
  unfold version hdrLen
  rw [h0]
  have ha : ∀ x<16,((0x40 ||| (BitVec.ofNat 8 x &&& 0x0F))>>>4 : BitVec 8).toNat=4 ∧
      ((0x40 ||| (BitVec.ofNat 8 x &&& 0x0F)) &&& 0x0F : BitVec 8).toNat*4=x*4 := by decide
  exact ha ihl hi

theorem recksum_other {i : ℕ} (hi : i<10 ∨ 11 < i) : (recksum h) i=h i := by
  unfold recksum setCksum
  rw [wr16_other (by omega),wr16_other (by omega)]

theorem hdrLen_recksum : hdrLen (recksum h)=hdrLen h := by
  unfold hdrLen
  rw [recksum_other h (.inl (by decide))]

theorem valid_recksum (hlen : 20≤hdrLen h) : Checksum.valid (recksum h) (hdrLen (recksum h)) := by
  obtain ⟨hmax,hmod⟩ := hdrLen_le h
  have hz : hdrLen (setCksum h 0)=hdrLen h := by
    unfold hdrLen setCksum
    rw [wr16_other (.inl (by decide))]
  have hs := valid_seal (setCksum h 0) (k := 5) (show hdrLen h%2=0 by omega) (by omega) (by omega)
  have hi : (setCksum h 0).wr16 (2*5) 0=setCksum h 0 := by
    funext i
    unfold setCksum wr16
    split_ifs <;> rfl
  rw [hi] at hs
  rw [hdrLen_recksum]
  unfold recksum
  dsimp only
  rw [hz]
  exact hs

/-- A header corrected in length, flags and offset and sealed: it is valid, and otherwise as it was. -/
structure Corrected (b : Octets) (len : ℕ) (v : BitVec 16) (f : Octets) : Prop where
  valid : verify f len=true
  totalLen : totalLen f=len
  hdrLen : hdrLen f=hdrLen b
  flagsFrag : flagsFrag f=v
  ident : ident f=ident b
  proto : proto f=proto b
  src : src f=src b
  dst : dst f=dst b
  options : ∀ i,20 ≤ i → i<Ip4.hdrLen b → f i=b i

theorem corrected {b f : Octets} {len : ℕ} {v : BitVec 16} (h4 : version b=4) (h20 : 20≤hdrLen b) (hle : hdrLen b≤len)
    (hl : len<2^16) (hf : ∀ i<hdrLen b,f i=(recksum (setFlagsFrag (setTotalLen b len) v)) i) : Corrected b len v f := by
  obtain ⟨c,hc⟩ : ∃ c,setFlagsFrag (setTotalLen b len) v=c := ⟨_,rfl⟩
  rw [hc] at hf
  have hot : ∀ i,i<2 ∨ 3 < i ∧ i<6 ∨ 7 < i → c i=b i := by
    intro i hi
    rw [←hc]
    unfold setFlagsFrag setTotalLen
    rw [wr16_other (by omega),wr16_other (by omega)]
  have hs : ∀ i<hdrLen b,i<10 ∨ 11 < i → f i=c i := fun i hi ho => (hf i hi).trans (recksum_other c ho)
  have hk : ∀ i<hdrLen b,i<2 ∨ 3 < i ∧ i<6 ∨ 7 < i ∧ i<10 ∨ 11 < i → f i=b i := fun i hi ho =>
    (hs i hi (by omega)).trans (hot i (by omega))
  have hh : hdrLen f=hdrLen b := by
    unfold hdrLen
    rw [hk 0 (by omega) (by omega)]
  have hch : hdrLen c=hdrLen b := by
    unfold hdrLen
    rw [hot 0 (by omega)]
  have ht : totalLen f=len := by
    rw [←totalLen_setTotalLen b hl]
    refine congrArg BitVec.toNat (rd16_congr fun i h1 h2 => ?_)
    rw [hs i (by omega) (by omega),←hc]
    exact wr16_other (by omega)
  have hvr : version f=4 := by
    rw [←h4]
    unfold version
    rw [hk 0 (by omega) (by omega)]
  have hv : valid f (hdrLen f) := by
    have hcr : hdrLen (recksum c)=hdrLen b := (hdrLen_recksum c).trans hch
    rw [valid_congr (hh.trans hcr.symm) fun i hi => hf i (by rwa [hcr] at hi)]
    exact valid_recksum c (by rw [hch]; exact h20)
  refine ⟨verify_iff.2 ⟨hvr,by omega,by omega,by omega,hv⟩,ht,hh,?_,?_,?_,?_,?_,fun i h1 h2 => hk i h2 (by omega)⟩
  · rw [←flagsFrag_setFlagsFrag (setTotalLen b len) v,hc]
    exact rd16_congr fun i h1 h2 => hs i (by omega) (by omega)
  · exact rd16_congr fun i h1 h2 => hk i (by omega) (by omega)
  · exact hk 9 (by omega) (by omega)
  · exact rd32_congr fun i h1 h2 => hk i (by omega) (by omega)
  · exact rd32_congr fun i h1 h2 => hk i (by omega) (by omega)

end Writers

end IdemIp.Ip4
