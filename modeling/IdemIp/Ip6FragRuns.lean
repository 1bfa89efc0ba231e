import IdemIp.Ip6ReassOrder

/-!
# Cutting an IPv6 packet and gathering it again

Each fragment the cursor writes repeats the Per-Fragment headers and carries the
octets of the Fragmentable Part where the cursor stands. The fragments tile it, and
the first passes the reassembler's test of the header chain, so a reassembler with
empty tables completes the packet in any order.
-/

namespace IdemIp.Ip6

open BitVec

section Fields

variable {offset : ℕ} {more : Bool}

theorem toNat_offsetMore (h : offset%8=0) (hlt : offset<2^16) : (offsetMore offset more).toNat=offset+more.toNat := by
  have hof : (BitVec.ofNat 16 offset &&& 0xFFF8).toNat=offset := by
    rw [toNat_and_units,toNat_ofNat]
    omega
  obtain ⟨k,rfl⟩ := Nat.dvd_of_mod_eq_zero h
  rw [offsetMore,toNat_or,hof]
  have hs := Nat.two_pow_add_eq_or_of_lt (show more.toNat<2^3 by cases more <;> decide) k
  refine Eq.trans ?_ hs.symm
  cases more <;> rfl

theorem offsetMore_offset (h : offset%8=0) (hlt : offset<2^16) : (offsetMore offset more &&& 0xFFF8).toNat=offset := by
  have hb : more.toNat≤1 := Bool.toNat_le more
  rw [toNat_and_units,toNat_offsetMore h hlt]
  omega

theorem offsetMore_more (h : offset%8=0) (hlt : offset<2^16) : (offsetMore offset more &&& 1 != 0)=more := by
  have ha : (offsetMore offset more &&& 1).toNat=more.toNat := by
    have hm := Nat.and_two_pow_sub_one_eq_mod (offset+more.toNat) 1
    have hb : more.toNat≤1 := Bool.toNat_le more
    rw [toNat_and,toNat_offsetMore h hlt]
    refine hm.trans ?_
    omega
  rw [Bool.eq_iff_iff,bne_iff_ne,ne_eq,←toNat_inj,ha]
  cases more <;> decide

theorem fragBuild_fields {more : Bool} {p : Octets} {off : ℕ} {nextHdr : BitVec 8} {ident : BitVec 32} (h : offset%8=0) (hlt : offset<2^16) :
    let q := fragBuild p off nextHdr offset more ident
    q off=nextHdr ∧ fragOffsetBytes (q.drop off)=offset ∧ fragMore (q.drop off)=more ∧ fragIdent (q.drop off)=ident ∧
      ∀ i,i<off ∨ off+8 ≤ i → q i=p i := by
  intro q
  obtain ⟨u,hu⟩ : ∃ u,(p.wr8 off nextHdr).wr8 (off+1) 0=u := ⟨_,rfl⟩
  have hq : q=(u.wr16 (off+2) (offsetMore offset more)).wr32 (off+4) ident := by
    rw [←hu]
    rfl
  have hf : (q.drop (off+2)).rd16=offsetMore offset more := by
    rw [←Octets.rd16_wr16 u (off+2) (offsetMore offset more),hq]
    exact Octets.rd16_congr fun i h1 h2 => Octets.wr32_other (by omega)
  refine ⟨?_,?_,?_,?_,fun i hi => ?_⟩
  · rw [hq,Octets.wr32_other (by omega),Octets.wr16_other (by omega),←hu,Octets.wr8_other (by omega)]
    exact if_pos rfl
  · unfold fragOffsetBytes
    rw [Octets.drop_drop,hf]
    exact offsetMore_offset h hlt
  · unfold fragMore
    rw [Octets.drop_drop,hf]
    exact offsetMore_more h hlt
  · unfold fragIdent
    rw [Octets.drop_drop,hq]
    exact Octets.rd32_wr32
  · rw [hq,Octets.wr32_other (by omega),Octets.wr16_other (by omega),←hu,Octets.wr8_other (by omega),Octets.wr8_other (by omega)]

end Fields

end IdemIp.Ip6

namespace IdemIp.Ip6Frag

open Octets
open Ip6 (Stand PerFragment Leads)

/-- What a fragment is, by where the cursor stood when it was written; the Per-Fragment headers end at `m`. -/
structure Fragment (p : Octets) (ident : BitVec 32) (m : Stand) (c : Ctx) (f : Octets) : Prop where
  payloadLen : Ip6.payloadLen f=m.off-40+8+c.chunkNow
  /-- The headers but for the Payload Length and the last Next Header. -/
  headers : ∀ i < m.off,i≠4 → i≠5 → i≠m.at_ → f i=p i
  named : f m.at_=44
  nextHdr : f m.off=p m.at_
  offset : Ip6.fragOffsetBytes (f.drop m.off)=c.cursor
  more : Ip6.fragMore (f.drop m.off)=c.moreNow
  ident : Ip6.fragIdent (f.drop m.off)=ident
  data : ∀ x < c.chunkNow,f (m.off+8+x)=p (m.off+c.cursor+x)

/-- A context a packet to cut was taken into, and where its cursor stands. -/
structure Open (p : Octets) (ident : BitVec 32) (mtu : ℕ) (m t : Stand) (c : Ctx) : Prop where
  ready : c.ready
  opened : c.opened
  split : c.split
  pkt : c.pkt=p
  ident : c.ident=ident
  unfragLen : c.unfragLen=m.off
  nhOff : c.nhOff=m.at_
  nextHdr : c.nextHdr=p m.at_
  dataLen : m.off+c.dataLen=40+Ip6.payloadLen p
  headers : PerFragment p (40+Ip6.payloadLen p) m t
  chunk : c.chunk=chunkOf mtu (m.off+8)
  /-- A fragment has room for a unit. -/
  room : m.off+16≤ mtu
  most : mtu<2^16
  large : mtu<40+Ip6.payloadLen p
  reach : t.off < m.off+c.chunk
  /-- Between two cuts it stands at a unit. -/
  between : c.done=false → c.cursor < c.dataLen ∧ c.cursor%8=0

section Contexts

variable {p : Octets} {ident : BitVec 32} {mtu : ℕ} {m t : Stand} {c : Ctx}

/-- Where the Per-Fragment headers end, and where the last of them names what follows. -/
theorem perFragment_bounds {len : ℕ} (h : PerFragment p len m t) : 40 ≤ m.off ∧ (m.at_=6 ∨ 40 ≤ m.at_) ∧ m.at_ < m.off ∧ m.off≤t.off := by
  obtain ⟨hat,h40,-,hm⟩ := Ip6.path_forward h.before (show 6<40 by omega)
  have hb : Ip6.Path p len m t := h.behind.lift id fun _ _ h => h.1
  obtain ⟨-,hle,-,-⟩ := Ip6.path_forward hb hat
  refine ⟨h40,?_,hat,hle⟩
  rcases hm with rfl|⟨hm,-⟩
  · exact .inl rfl
  · exact .inr hm

variable (ho : Open p ident mtu m t c)
include ho

/-- A cut leaves whole units behind it or nothing, and the fragment fits the MTU. -/
theorem Open.chunkNow (hd : c.done=false) : m.off+8+c.chunkNow ≤ mtu ∧ 0 < c.chunkNow ∧
      (c.cursor+c.chunkNow=c.dataLen ∨ 8 ≤ c.chunkNow ∧ c.chunkNow%8=0 ∧ c.cursor+c.chunkNow < c.dataLen) := by
  obtain ⟨hlt,-⟩ := ho.between hd
  have hc := ho.chunk
  have hr := ho.room
  unfold chunkOf at hc
  unfold Ctx.chunkNow
  split_ifs <;> omega

theorem Open.lenNow : c.lenNow=m.off+8+c.chunkNow := by
  unfold Ctx.lenNow Ctx.hdrNow
  rw [ho.split,if_pos rfl,ho.unfragLen]

theorem Open.advance (hd : c.done=false) : Open p ident mtu m t c.advance := by
  obtain ⟨-,-,hc⟩ := ho.chunkNow hd
  refine ⟨ho.ready,ho.opened,ho.split,ho.pkt,ho.ident,ho.unfragLen,ho.nhOff,ho.nextHdr,ho.dataLen,ho.headers,ho.chunk,ho.room,ho.most,
    ho.large,ho.reach,fun hd' => ?_⟩
  have hl : ¬c.dataLen ≤ c.cursor+c.chunkNow := of_decide_eq_false hd'
  obtain ⟨-,hu⟩ := ho.between hd
  show c.cursor+c.chunkNow < c.dataLen ∧ (c.cursor+c.chunkNow)%8=0
  omega

theorem Open.emit (hd : c.done=false) (out : Octets) : Fragment p ident m c (c.emit out) := by
  obtain ⟨h40,h6,hat,-⟩ := perFragment_bounds ho.headers
  obtain ⟨hf,-,-⟩ := ho.chunkNow hd
  obtain ⟨hlt,hu⟩ := ho.between hd
  have hdt := ho.dataLen
  have hl := ho.large
  have hpl : Ip6.payloadLen p<2^16 := ((p.drop 4).rd16).isLt
  -- the buffer as each write leaves it
  obtain ⟨o1,h1⟩ : ∃ o,out.copy 0 p m.off=o := ⟨_,rfl⟩
  obtain ⟨o2,h2⟩ : ∃ o,o1.wr8 m.at_ 44=o := ⟨_,rfl⟩
  obtain ⟨o3,h3⟩ : ∃ o,Ip6.setPayloadLen o2 (m.off-40+8+c.chunkNow)=o := ⟨_,rfl⟩
  obtain ⟨o4,h4⟩ : ∃ o,Ip6.fragBuild o3 m.off (p m.at_) c.cursor c.moreNow ident=o := ⟨_,rfl⟩
  have he : c.emit out=o4.copy (m.off+8) (p.drop (m.off+c.cursor)) c.chunkNow := by
    unfold Ctx.emit Ip6Frag.emit
    rw [ho.split,Bool.not_true,if_neg Bool.false_ne_true,ho.pkt,ho.unfragLen,ho.nhOff,ho.nextHdr,ho.ident,h1]
    dsimp only
    rw [h2,h3,h4]
  obtain ⟨hn,hof,hm,hid,hb⟩ := Ip6.fragBuild_fields hu (by omega)
  rw [h4] at hn hof hm hid hb
  have hot : ∀ i < m.off+8,c.emit out i=o4 i := by
    intro i hi
    rw [he]
    exact copy_outside (.inl hi)
  have hh : ∀ i < m.off,i≠4 → i≠5 → c.emit out i=o2 i := by
    intro i hi hn4 hn5
    rw [hot i (by omega),hb i (.inl hi),←h3]
    exact wr16_other (by omega)
  refine ⟨?_,fun i hi hn4 hn5 hne => ?_,?_,?_,?_,?_,?_,fun x hx => ?_⟩
  · have hr : ((c.emit out).drop 4).rd16=BitVec.ofNat 16 (m.off-40+8+c.chunkNow) := by
      rw [←rd16_wr16 o2 4 (BitVec.ofNat 16 (m.off-40+8+c.chunkNow))]
      refine rd16_congr fun i hi1 hi2 => ?_
      rw [hot i (by omega),hb i (.inl (by omega)),←h3]
      rfl
    unfold Ip6.payloadLen
    rw [hr,BitVec.toNat_ofNat]
    omega
  · rw [hh i hi hn4 hn5,←h2,wr8_other hne,←h1,copy_inside (Nat.zero_le i) (by omega),Nat.sub_zero]
  · rw [hh m.at_ hat (by omega) (by omega),←h2]
    exact if_pos rfl
  · rw [hot m.off (by omega)]
    exact hn
  · rw [←hof]
    unfold Ip6.fragOffsetBytes
    rw [drop_drop,drop_drop,rd16_congr fun i _ hi => hot i (by omega)]
  · rw [←hm]
    unfold Ip6.fragMore
    rw [drop_drop,drop_drop,rd16_congr fun i _ hi => hot i (by omega)]
  · rw [←hid]
    unfold Ip6.fragIdent
    rw [drop_drop,drop_drop,rd32_congr fun i _ hi => hot i (by omega)]
  · rw [he,copy_inside (by omega) (by omega),Nat.add_sub_cancel_left]
    rfl

end Contexts

section Opening

variable {w : Work} {a : BeginArgs}

/-- A packet larger than the MTU whose chain the general walk steps lies in the context with what every cut needs. -/
theorem begin_open (h : (begin w a).io.status=.ok) (hlt : a.mtu.toNat<40+Ip6.payloadLen a.pkt)
    (hw : (Ip6.walk a.pkt (40+Ip6.payloadLen a.pkt)).ok) :
    ∃ m t,Open a.pkt a.ident a.mtu.toNat m t (begin w a).ctx ∧ (begin w a).ctx.done=false ∧ (begin w a).ctx.cursor=0 ∧
      (begin w a).io.unfragLen=m.off ∧ (begin w a).io.nextHdr=a.pkt m.at_ := by
  have hpl : Ip6.payloadLen a.pkt<2^16 := ((a.pkt.drop 4).rd16).isLt
  unfold begin at h ⊢
  cases hr : w.ctx.ready with
  | false =>
    rw [hr] at h
    cases h
  | true =>
    rw [hr,if_pos rfl] at h
    rw [if_pos rfl]
    unfold take at h ⊢
    dsimp only at h ⊢
    split_ifs at h ⊢ with h1 h2 h3 h4 h5 h6 h7
    all_goals try cases h
    obtain ⟨m,t,hp,hu,hn,he⟩ := fragWalk_perFragment (by omega) hw (Bool.eq_true_of_not_eq_false h5)
    obtain ⟨-,-,-,hle⟩ := perFragment_bounds hp
    have hup : 1≤a.upper := by
      unfold BeginArgs.upper
      split_ifs with hz
      · have hne : a.upperHdrLen.toNat≠0 := fun hx => hz (BitVec.eq_of_toNat_eq hx)
        omega
      · exact le_rfl
    rw [hu] at h6 h7
    rw [he] at h7
    have hrm : m.off+16≤a.mtu.toNat := by omega
    have hrc : t.off < m.off+chunkOf a.mtu.toNat (m.off+8) := by omega
    rw [hu,hn]
    refine ⟨m,t,⟨hr,rfl,rfl,rfl,rfl,rfl,rfl,rfl,?_,hp,rfl,hrm,a.mtu.isLt,hlt,hrc,fun _ => ⟨?_,rfl⟩⟩,rfl,rfl,rfl,rfl⟩
    · show m.off+(40+Ip6.payloadLen a.pkt-m.off)=_
      omega
    · show 0<40+Ip6.payloadLen a.pkt-m.off
      omega

end Opening

/-- A call of `next` with the state it leaves. -/
def stepNext (w : Work) (a : NextArgs) : Work := (next w a).1

/-- The fragment a call wrote. -/
def written (w : Work) (a : NextArgs) : List Octets := if (next w a).1.io.status=.ok then [(next w a).2] else []

/-- The fragments calls wrote, in their order. -/
def fragments (w : Work) (ns : List NextArgs) : List Octets := StepRun.outputs stepNext written w ns

section Calls

variable {p : Octets} {ident : BitVec 32} {mtu : ℕ} {m t : Stand} {w : Work} {a : NextArgs}

/-- A call writes the fragment the cursor stands on and moves behind it, or nothing. -/
theorem next_turn (ho : Open p ident mtu m t w.ctx) (a : NextArgs) :
    Cutter.Turn Ctx.done Ctx.advance w.ctx (next w a).1.ctx (w.ctx.lenNow≤a.cap) ((next w a).1.io.status=.ok)
      ((next w a).1.io.err=.done) (next w a).2 (w.ctx.emit a.out) := by
  have hop : ¬w.ctx.opened=false := by
    rw [ho.opened]
    exact nofun
  have hn : next w a=_ := (if_pos ho.ready).trans (if_neg hop)
  exact .of_guards (fun r : Work×Octets => r.1.ctx) (fun r => r.1.io.status=.ok) (fun r => r.1.io.err=.done) Prod.snd hn
    ⟨nofun,rfl,rfl⟩ ⟨nofun,rfl,nofun⟩ ⟨rfl,rfl,rfl,nofun⟩

theorem lawful (p : Octets) (ident : BitVec 32) (mtu : ℕ) (m t : Stand) :
    Cutter.Lawful stepNext written Work.ctx (fun c a => c.lenNow≤a.cap) Ctx.done Ctx.advance (Fragment p ident m)
      (Open p ident mtu m t) :=
  .of_turns (fun _ a ho => next_turn ho a) (fun _ a ho hd => ho.emit hd a.out) fun _ ho hd => ho.advance hd

/-- Units that are not written, rounded up. -/
def Ctx.left (c : Ctx) : ℕ := if c.done then 0 else (c.dataLen-c.cursor)/8+1

theorem Open.left_advance {c : Ctx} (ho : Open p ident mtu m t c) (hd : c.done=false) : c.advance.left < c.left := by
  obtain ⟨-,-,hc⟩ := ho.chunkNow hd
  unfold Ctx.left
  rw [hd,if_neg Bool.false_ne_true]
  split_ifs with hdn
  · exact Nat.succ_pos _
  have hl : ¬c.dataLen ≤ c.cursor+c.chunkNow := fun hle => hdn (decide_eq_true hle)
  show (c.dataLen-(c.cursor+c.chunkNow))/8+1<_
  omega

theorem run_finishes (ho : Open p ident mtu m t w.ctx) (ns : List NextArgs)
    (hns : w.ctx.left≤(ns.filter fun n => mtu≤n.cap).length) : (StepRun.run stepNext w ns).ctx.done := by
  have hdn : ∀ c : Ctx,c.done → c.left=0 := fun c hc => if_pos hc
  refine (lawful p ident mtu m t).run_finishes (fun c hc => ?_) hdn (fun c hc hd => hc.left_advance hd)
    (fun c a hc hd hr => ?_) ho ns hns
  · unfold Ctx.left at hc
    split_ifs at hc with hd
    exact hd
  · rw [hc.lenNow]
    exact (hc.chunkNow hd).1.trans (of_decide_eq_true hr)

end Calls

open Ip6 (Stand PerFragment Leads)
open Ip6Reass (InputArgs Fields Call)
open Pieces StepRun List Octets

/-- Octets of the Fragmentable Part in a fragment. -/
def partLen (m : Stand) (f : Octets) : ℕ := 40+Ip6.payloadLen f-(m.off+8)

def part (m : Stand) (f : Octets) : List (BitVec 8) := (f.drop (m.off+8)).span (partLen m f)

def pieceOf (m : Stand) (f : Octets) : Piece :=
  ⟨Ip6.fragOffsetBytes (f.drop m.off),partLen m f,Ip6.fragMore (f.drop m.off)⟩

/-- A fragment by itself. -/
structure PartOf (p : Octets) (ident : BitVec 32) (mtu : ℕ) (m : Stand) (f : Octets) : Prop where
  fits : 40+Ip6.payloadLen f≤ mtu
  /-- It repeats the Per-Fragment headers but for the Payload Length and the last Next Header. -/
  headers : ∀ i < m.off,i≠4 → i≠5 → i≠m.at_ → f i=p i
  /-- That one names the Fragment header behind them, which names what the last of them named. -/
  named : f m.at_=44
  nextHdr : f m.off=p m.at_
  ident : Ip6.fragIdent (f.drop m.off)=ident
  /-- It lies behind the Fragment header, and has an octet at least. -/
  filled : m.off+8<40+Ip6.payloadLen f
  /-- It begins at a unit, and is whole units when more follow. -/
  aligned : 8 ∣ Ip6.fragOffsetBytes (f.drop m.off) ∧ (Ip6.fragMore (f.drop m.off) → 8 ∣ partLen m f)

/-- Fragments that together are the packet. -/
structure Split (p : Octets) (ident : BitVec 32) (mtu : ℕ) (m : Stand) (fs : List Octets) : Prop where
  parts : ∀ f∈fs,PartOf p ident mtu m f
  /-- Each begins where the one before ends; the M flag is clear on the last only. -/
  follow : Follow false 0 (fs.map (pieceOf m))
  disjoint : (fs.map (pieceOf m)).Pairwise fun p q => p.stop≤q.first
  data : (fs.map (part m)).flatten=(p.drop m.off).span (40+Ip6.payloadLen p-m.off)

section Splits

variable {p : Octets} {ident : BitVec 32} {mtu : ℕ} {m t : Stand} {c c' : Ctx} {fs : List Octets}

theorem Fragment.partLen {f : Octets} (hf : Fragment p ident m c f) (h40 : 40 ≤ m.off) : partLen m f=c.chunkNow := by
  unfold Ip6Frag.partLen
  rw [hf.payloadLen]
  omega

theorem Fragment.part {f : Octets} (hf : Fragment p ident m c f) (ho : Open p ident mtu m t c) (hd : c.done=false) :
    PartOf p ident mtu m f := by
  obtain ⟨h40,-,-,-⟩ := perFragment_bounds ho.headers
  obtain ⟨hft,hp,hct⟩ := ho.chunkNow hd
  have hpl := hf.payloadLen
  refine ⟨by omega,hf.headers,hf.named,hf.nextHdr,hf.ident,by omega,Ip6.fragOffsetBytes_dvd _,fun hm => ?_⟩
  rw [hf.more,Ctx.moreNow,decide_eq_true_iff] at hm
  rw [hf.partLen h40]
  omega

section

variable (hc : Cutter.Cuts Ctx.done Ctx.advance (Fragment p ident m) c fs c')

include hc

theorem cuts_split (ho : Open p ident mtu m t c) (hd : c.done=false) (hd' : c'.done) :
    (∀ f∈fs,PartOf p ident mtu m f) ∧ Follow false c.cursor (fs.map (pieceOf m)) ∧
      (fs.map (Ip6Frag.part m)).flatten=(p.drop (m.off+c.cursor)).span (c.dataLen-c.cursor) := by
  obtain ⟨h40,-,-,-⟩ := perFragment_bounds ho.headers
  induction hc with
  | nil c => cases hd.symm.trans hd'
  | @cons c c' f fs _ hf hr ih =>
    obtain ⟨-,hp,hct⟩ := ho.chunkNow hd
    obtain ⟨hlt,-⟩ := ho.between hd
    have hln := hf.partLen h40
    have hon := hf.part ho hd
    have hdt : Ip6Frag.part m f=(p.drop (m.off+c.cursor)).span c.chunkNow := by
      unfold Ip6Frag.part
      rw [hln]
      exact span_congr hf.data
    by_cases he : c.cursor+c.chunkNow=c.dataLen
    · -- the last one: nothing is written behind it
      have hdn : c.advance.done := decide_eq_true he.ge
      have hn := hr.eq_nil hdn
      have hm : Ip6.fragMore (f.drop m.off)=false := hf.more.trans (decide_eq_false (by omega))
      subst hn
      refine ⟨fun g hg => ?_,⟨hf.offset,hm⟩,?_⟩
      · rw [mem_singleton.1 hg]
        exact hon
      · rw [map_singleton,flatten_singleton,hdt]
        congr 1
        omega
    obtain ⟨-,-,hl⟩ := hct.resolve_left he
    obtain ⟨ha,hfl,hb⟩ := ih (ho.advance hd) (decide_eq_false (by omega)) hd'
    have hm : Ip6.fragMore (f.drop m.off) := hf.more.trans (decide_eq_true hl)
    refine ⟨fun g hg => ?_,Follow.cons hf.offset hm ?_,?_⟩
    · rcases mem_cons.1 hg with rfl|hg
      · exact hon
      · exact ha g hg
    · have hs : (pieceOf m f).stop=c.cursor+c.chunkNow := by
        show Ip6.fragOffsetBytes (f.drop m.off)+Ip6Frag.partLen m f=_
        rw [hf.offset,hln]
      rw [hs]
      exact hfl
    · rw [map_cons,flatten_cons,hdt,hb]
      show _++(p.drop (m.off+(c.cursor+c.chunkNow))).span (c.dataLen-(c.cursor+c.chunkNow))=_
      rw [←Nat.add_assoc,←drop_drop p (m.off+c.cursor),←span_add]
      congr 1
      omega

theorem cuts_whole (ho : Open p ident mtu m t c)
    (hd : c.done=false) (hcr : c.cursor=0) (hd' : c'.done) : Split p ident mtu m fs := by
  obtain ⟨ha,hf,hdt⟩ := cuts_split hc ho hd hd'
  have hl := ho.dataLen
  rw [hcr] at hf hdt
  refine ⟨ha,hf,hf.order.2,?_⟩
  rw [hdt,Nat.add_zero]
  congr 1
  omega

theorem cuts_first (ho : Open p ident mtu m t c) (hd : c.done=false) (hcr : c.cursor=0) (hd' : c'.done) :
    ∀ f∈fs,Ip6.fragOffsetBytes (f.drop m.off)=0 → Leads p m (Ip6Frag.partLen m f) f ∧ t.off < m.off+Ip6Frag.partLen m f := by
  obtain ⟨h40,h6,-,-⟩ := perFragment_bounds ho.headers
  have hfl := (cuts_split hc ho hd hd').2.1
  have hp := (cuts_split hc ho hd hd').1
  cases hc with
  | nil => exact nofun
  | @cons _ _ f fs _ hf _ =>
    intro g hg hz
    rcases mem_cons.1 hg with rfl|hg
    · have hl := hf.partLen h40
      have hdt := ho.dataLen
      have hlr := ho.large
      have hr := ho.reach
      have hch : c.chunkNow=c.chunk := by
        have hle : chunkOf mtu (m.off+8) ≤ mtu-(m.off+8) := Nat.div_mul_le_self _ _
        have hrm := ho.room
        have hc := ho.chunk
        unfold Ctx.chunkNow
        rw [if_pos (by omega)]
      refine ⟨⟨fun i hi hi6 hne => hf.headers i hi (by omega) (by omega) hne,hf.named,hf.nextHdr,hz,fun x hx => ?_⟩,by omega⟩
      rw [hl] at hx
      have hx := hf.data x hx
      rwa [hcr] at hx
    · -- the others begin behind it
      have hls := rel_of_pairwise_cons hfl.order.2 (mem_map_of_mem hg)
      have hps := (hp f mem_cons_self).filled
      have hs : (pieceOf m f).stop=Ip6.fragOffsetBytes (f.drop m.off)+Ip6Frag.partLen m f := rfl
      have hfr : (pieceOf m g).first=0 := hz
      have hl : Ip6Frag.partLen m f=40+Ip6.payloadLen f-(m.off+8) := rfl
      omega

end

end Splits

/-- A call gives a reassembler the octets of a fragment and where its Fragment header is. -/
structure Carries (m : Stand) (a : InputArgs) (f : Octets) : Prop where
  octets : ∀ i<40+Ip6.payloadLen f,a.pkt i=f i
  len : 40+Ip6.payloadLen f≤a.len
  fragHdr : a.fragHdr=m.off

/-- A call with what its Fragment header says. -/
def withFields (a : InputArgs) : InputArgs×Fields := (a,(Ip6Reass.fields a).getD ⟨0,0,0,0,0,false⟩)

section Gathering

variable {p : Octets} {ident : BitVec 32} {mtu : ℕ} {m t : Stand} {fs : List Octets} {as : List InputArgs}

variable {a : InputArgs} {f : Octets} {len : ℕ}

theorem Carries.fields (hc : Carries m a f) (hp : PartOf p ident mtu m f) (h40 : 40 ≤ m.off) (hm : mtu<2^16) :
    Ip6Reass.fields a=some ⟨ident,Ip6.fragOffsetBytes (f.drop m.off),partLen m f,m.off+8,p m.at_,Ip6.fragMore (f.drop m.off)⟩ ∧
      Ip6.payloadLen a.pkt=Ip6.payloadLen f := by
  have hf := hp.filled
  have hft := hp.fits
  have hl := hc.len
  have hpl : Ip6.payloadLen a.pkt=Ip6.payloadLen f :=
    congrArg BitVec.toNat (rd16_congr fun i _ hi => hc.octets i (by omega))
  have hw : ((a.pkt.drop m.off).drop 2).rd16=((f.drop m.off).drop 2).rd16 := by
    rw [Octets.drop_drop,Octets.drop_drop]
    exact rd16_congr fun i _ hi => hc.octets i (by omega)
  have hid : Ip6.fragIdent (a.pkt.drop m.off)=ident := by
    rw [←hp.ident]
    unfold Ip6.fragIdent
    rw [Octets.drop_drop,Octets.drop_drop]
    exact rd32_congr fun i _ hi => hc.octets i (by omega)
  have hn : (a.pkt.drop m.off) 0=p m.at_ := (hc.octets (m.off+0) (by omega)).trans hp.nextHdr
  refine ⟨?_,hpl⟩
  unfold Ip6Reass.fields
  dsimp only
  rw [hc.fragHdr,hpl,if_neg (by omega),if_neg (by omega),if_neg (by omega),hid,hn]
  unfold Ip6.fragOffsetBytes Ip6.fragMore partLen
  rw [hw,show Ip6.payloadLen f-(m.off-40)-8=40+Ip6.payloadLen f-(m.off+8) by omega]

theorem Carries.chain (hc : Carries m a f) (hp : PartOf p ident mtu m f) (hm : mtu<2^16)
    (hpl : Ip6.payloadLen a.pkt=Ip6.payloadLen f) (hpr : PerFragment p len m t) (hl : Leads p m (partLen m f) f)
    (hr : t.off < m.off+partLen m f) : Ip6Reass.chainShort a=false := by
  obtain ⟨-,h6,hat,-⟩ := perFragment_bounds hpr
  have hf := hp.filled
  have hft := hp.fits
  have hb : Ip6.payloadLen a.pkt+40=m.off+8+partLen m f := by
    rw [hpl]
    unfold partLen
    omega
  have hs : ∀ i < m.off+8+partLen m f,a.pkt i=f i := fun i hi => hc.octets i (by omega)
  have hcr : Leads p m (partLen m f) a.pkt := by
    refine ⟨fun i hi hi6 hne => (hs i (by omega)).trans (hl.before i hi hi6 hne),(hs _ (by omega)).trans hl.named,
      (hs _ (by omega)).trans hl.next,?_,fun x hx => (hs _ (by omega)).trans (hl.behind x hx)⟩
    rw [←hl.zero]
    unfold Ip6.fragOffsetBytes
    rw [Octets.drop_drop,Octets.drop_drop,Octets.rd16_congr fun i _ hi => hs i (by omega)]
  obtain ⟨hok,ho,-⟩ := hpr.walk_leads hcr hr.le (by omega)
  unfold Ip6Reass.chainShort
  dsimp only
  rw [hb,hok,ho,decide_eq_false (by omega),Bool.and_false]
  rfl

theorem Split.endOf_eq (hs : Split p ident mtu m fs) : endOf (fs.map (pieceOf m))=40+Ip6.payloadLen p-m.off := by
  have hsm : ((fs.map (pieceOf m)).map Piece.len).sum=(fs.map (part m)).flatten.length := by
    rw [length_flatten,map_map,map_map]
    refine congrArg sum (map_congr_left fun f _ => ?_)
    exact (length_span).symm
  rw [hs.follow.endOf_eq,Nat.zero_add,hsm,hs.data]
  exact length_span

theorem Split.several (hs : Split p ident mtu m fs) (hlt : mtu<40+Ip6.payloadLen p) : 2≤fs.length := by
  have hf := hs.follow
  match fs,hs,hf with
  | [],_,hno => cases hno
  | [f],hs,_ =>
    have hp := hs.parts f (mem_singleton_self f)
    have hd := congrArg length hs.data
    rw [map_singleton,flatten_singleton] at hd
    unfold part partLen at hd
    rw [length_span,length_span] at hd
    have hft := hp.fits
    have hfl := hp.filled
    omega
  | f::g::fs,_,_ => exact Nat.le_add_left 2 fs.length

theorem Split.tiling (hs : Split p ident mtu m fs) (hpe : PerFragment p len m t) (hm : mtu<2^16)
    (hlt : mtu<40+Ip6.payloadLen p) (hin : m.off≤40+Ip6.payloadLen p)
    (hfr : ∀ f∈fs,Ip6.fragOffsetBytes (f.drop m.off)=0 → Leads p m (partLen m f) f ∧ t.off < m.off+partLen m f)
    (hc : List.Forall₂ (Carries m) as fs) : Ip6Reass.Tiling ⟨p.drop 8,p.drop 24,ident,m.off+8,p m.at_⟩ (as.map withFields) ∧
      ((as.map withFields).map fun x => x.2.piece)=fs.map (pieceOf m) := by
  obtain ⟨h40,h6,hat,-⟩ := perFragment_bounds hpe
  -- what each call carries, and what is read of it
  have hmm : ∀ x∈as.map withFields,∃ a f,f∈fs ∧ Carries m a f ∧ Ip6Reass.fields a=some x.2 ∧ Ip6.payloadLen a.pkt=Ip6.payloadLen f ∧
      x=(a,⟨ident,Ip6.fragOffsetBytes (f.drop m.off),partLen m f,m.off+8,p m.at_,Ip6.fragMore (f.drop m.off)⟩) := by
    intro x hx
    obtain ⟨a,ha,rfl⟩ := mem_map.1 hx
    obtain ⟨⟨i,hi⟩,rfl⟩ := get_of_mem ha
    have hi' : i<fs.length := hc.length_eq ▸ hi
    have hcr := hc.get hi hi'
    obtain ⟨hr,hpl⟩ := hcr.fields (hs.parts _ (get_mem fs ⟨i,hi'⟩)) h40 hm
    refine ⟨_,_,get_mem fs ⟨i,hi'⟩,hcr,?_,hpl,?_⟩
    · unfold withFields
      rw [hr]
      rfl
    · unfold withFields
      rw [hr]
      rfl
  have hpc : ((as.map withFields).map fun x => x.2.piece)=fs.map (pieceOf m) := by
    have hpr := hs.parts
    clear hs hmm hfr
    induction hc with
    | nil => rfl
    | @cons a f as fs ho _ ih =>
      have hr := (ho.fields (hpr f mem_cons_self) h40 hm).1
      have hh : (withFields a).2.piece=pieceOf m f := by
        unfold withFields
        rw [hr]
        rfl
      rw [map_cons,map_cons,map_cons,hh,ih fun g hg => hpr g (mem_cons_of_mem f hg)]
  have ht : TilesFrom 0 (fs.map (pieceOf m)) := by
    refine hs.follow.tiles fun q hq => ?_
    obtain ⟨f,hf,rfl⟩ := mem_map.1 hq
    have hfl := (hs.parts f hf).filled
    show 0<40+Ip6.payloadLen f-(m.off+8)
    omega
  have hpl : Ip6.payloadLen p<2^16 := ((p.drop 4).rd16).isLt
  have had : ∀ a f,f∈fs → Carries m a f → ∀ k,7<k → k≤24 → (a.pkt.drop k).bytesEq (p.drop k) 16 := by
    intro a f hf hcr k hk7 hk24
    have hp := hs.parts f hf
    refine bytesEq_iff.2 fun i hi => ?_
    exact (hcr.octets (k+i) (by omega)).trans (hp.headers (k+i) (by omega) (by omega) (by omega) (by omega))
  refine ⟨⟨fun x hx => ?_,hpc ▸ ht,?_,fun x hx h0 => ?_,fun x hx => ?_,fun x hx => ?_,fun x hx => ?_,fun x hx => ?_,
    fun x hx => ?_,?_⟩,hpc⟩
  · obtain ⟨a,f,-,-,hr,-,rfl⟩ := hmm x hx
    exact hr
  · rw [length_map,hc.length_eq]
    exact hs.several hlt
  · obtain ⟨a,f,hf,hcr,-,hpla,rfl⟩ := hmm x hx
    obtain ⟨hl,hrc⟩ := hfr f hf h0
    exact hcr.chain (hs.parts f hf) hm hpla hpe hl hrc
  · obtain ⟨a,f,hf,hcr,-,-,rfl⟩ := hmm x hx
    exact had a f hf hcr 8 (by omega) (by omega)
  · obtain ⟨a,f,hf,hcr,-,-,rfl⟩ := hmm x hx
    exact had a f hf hcr 24 (by omega) (by omega)
  · obtain ⟨a,f,-,-,-,-,rfl⟩ := hmm x hx
    rfl
  · obtain ⟨a,f,-,-,-,-,rfl⟩ := hmm x hx
    rfl
  · obtain ⟨a,f,-,-,-,-,rfl⟩ := hmm x hx
    rfl
  · rw [hpc,hs.endOf_eq]
    show m.off+8-48+(40+Ip6.payloadLen p-m.off)≤65535
    omega

theorem Split.gathers (hs : Split p ident mtu m fs) (hpe : PerFragment p len m t) (hm : mtu<2^16)
    (hlt : mtu<40+Ip6.payloadLen p) (hin : m.off≤40+Ip6.payloadLen p)
    (hf : ∀ f∈fs,Ip6.fragOffsetBytes (f.drop m.off)=0 → Leads p m (partLen m f) f ∧ t.off < m.off+partLen m f)
    {cfg : Config} {u : Ip6Reass.Work} {before : List Call} {b : InputArgs} {gs : List Octets} (hpr : gs.Perm fs)
    (hr : gs.length ≤ cfg.ip6ReassFrags) (hrw : 0 < cfg.ip6ReassDatagrams)
    (hcr : List.Forall₂ (Carries m) (before.filterMap Call.given++[b]) gs)
    (he : Along (Ip6Reass.step cfg) (Ip6Reass.Early cfg) (Ip6Reass.clear u) before) :
    Along (Ip6Reass.step cfg) (fun v c => ∀ b,c=.input b →
        (Ip6Reass.input cfg v b).io.status=.ok ∧ (Ip6Reass.input cfg v b).io.complete=false) (Ip6Reass.clear u) before ∧
      let v := Ip6Reass.input cfg (run (Ip6Reass.step cfg) (Ip6Reass.clear u) before) b
      v.io.status=.ok ∧ v.io.complete ∧ v.io.totalLen=Ip6.payloadLen p ∧ v.io.nextHdr=p m.at_ := by
  obtain ⟨h40,-,-,-⟩ := perFragment_bounds hpe
  -- the calls in offset order of what they carry
  obtain ⟨as,hto,hg⟩ : ∃ as,List.Forall₂ (Carries m) as fs ∧ (before.filterMap Call.given++[b]).Perm as := by
    have hfl := List.Forall₂.flip hcr
    obtain ⟨as,h1,h2⟩ := perm_comp_forall₂ hpr.symm hfl
    exact ⟨as,h1.flip,h2.symm⟩
  obtain ⟨htl,hp⟩ := hs.tiling hpe hm hlt hin hf hto
  have hl : (as.map withFields).length ≤ cfg.ip6ReassFrags := by
    rw [length_map,←hg.length_eq,hcr.length_eq]
    exact hr
  have hfs : before.filterMap Call.given++[b]=((before.filterMap Call.given++[b]).map withFields).map Prod.fst := by
    rw [map_map]
    exact (map_id _).symm
  have hrs := Ip6Reass.clear_gathers cfg u htl hl hrw hfs (hg.map withFields) he
  rw [hp,hs.endOf_eq] at hrs
  have ht : m.off+8-48+(40+Ip6.payloadLen p-m.off)=Ip6.payloadLen p := by omega
  rw [ht] at hrs
  exact hrs

end Gathering

/-- Whatever `begin` accepts beyond the MTU with a chain the general walk steps: calls with room write every fragment,
and together they are the packet. Given in any order to empty tables with room before the deadline, each is held and
the last completes it. -/
theorem begin_fragments_complete (w : Work) (a : BeginArgs) (h : (begin w a).io.status=.ok)
    (hlt : a.mtu.toNat<40+Ip6.payloadLen a.pkt) (hwalk : (Ip6.walk a.pkt (40+Ip6.payloadLen a.pkt)).ok=true) :
    ∃ m t,PerFragment a.pkt (40+Ip6.payloadLen a.pkt) m t ∧ (begin w a).io.unfragLen=m.off ∧ (begin w a).io.nextHdr=a.pkt m.at_ ∧
      (∀ ns,Ip6.payloadLen a.pkt/8+1≤(ns.filter fun n : NextArgs => a.mtu.toNat≤n.cap).length →
        ∀ n,(next (run stepNext (begin w a) ns) n).1.io.err=.done) ∧
      ∀ ns n,(next (run stepNext (begin w a) ns) n).1.io.err=.done →
        Split a.pkt a.ident a.mtu.toNat m (fragments (begin w a) ns) ∧
          ∀ (cfg : Config) (u : Ip6Reass.Work) (before : List Call) (b : InputArgs) (gs : List Octets),
            gs.Perm (fragments (begin w a) ns) → gs.length ≤ cfg.ip6ReassFrags → 0 < cfg.ip6ReassDatagrams →
            List.Forall₂ (Carries m) (before.filterMap Call.given++[b]) gs →
            Along (Ip6Reass.step cfg) (Ip6Reass.Early cfg) (Ip6Reass.clear u) before →
            Along (Ip6Reass.step cfg) (fun v c => ∀ b,c=.input b →
                (Ip6Reass.input cfg v b).io.status=.ok ∧ (Ip6Reass.input cfg v b).io.complete=false) (Ip6Reass.clear u) before ∧
              let v := Ip6Reass.input cfg (run (Ip6Reass.step cfg) (Ip6Reass.clear u) before) b
              v.io.status=.ok ∧ v.io.complete=true ∧ v.io.totalLen=Ip6.payloadLen a.pkt ∧ v.io.nextHdr=a.pkt m.at_ := by
  obtain ⟨m,t,hopen,hd,hcur,hunfrag,hnext⟩ := begin_open h hlt hwalk
  obtain ⟨h40,-,-,-⟩ := perFragment_bounds hopen.headers
  have hdata := hopen.dataLen
  refine ⟨m,t,hopen.headers,hunfrag,hnext,fun ns hns n => ?_,fun ns n hn => ?_⟩
  · obtain ⟨-,hlast⟩ := (lawful _ _ _ _ _).run_cuts hopen ns
    have hleft : (begin w a).ctx.left≤Ip6.payloadLen a.pkt/8+1 := by
      unfold Ctx.left
      rw [hd,if_neg nofun,hcur]
      omega
    exact (next_turn hlast _).ended.2 (run_finishes hopen ns (hleft.trans hns))
  · obtain ⟨hcuts,hlast⟩ := (lawful _ _ _ _ _).run_cuts hopen ns
    have hd' := (next_turn hlast _).ended.1 hn
    have hsplit := cuts_whole hcuts hopen hd hcur hd'
    refine ⟨hsplit,fun cfg u before b gs hperm hroom hrows hcar hearly => ?_⟩
    exact hsplit.gathers hopen.headers hopen.most hlt (by omega) (cuts_first hcuts hopen hd hcur hd') hperm hroom hrows hcar hearly

/-- A packet of 1340 octets is cut for an MTU of 1280. -/
theorem begin_fragments_complete_least :
    let w : Work := clear ⟨⟨.err,.none,false,false,0,0,0,0,0,0,0⟩,⟨false,zero,0,0,0,0,0,0,0,0,false,false,false⟩⟩
    let a : BeginArgs := ⟨ofList [0x60,0,0,0,5,20,17,64],1340,7,1280,8⟩
    (begin w a).io.status=.ok ∧ (begin w a).io.split=true ∧
      ∃ m,m.off=40 ∧ Split a.pkt 7 1280 m (fragments (begin w a) (replicate 163 ⟨zero,1280⟩)) := by
  intro w a
  have hok : (begin w a).io.status=.ok := by decide
  obtain ⟨m,t,-,hunfrag,-,hends,hall⟩ := begin_fragments_complete w a hok (by decide) (by decide)
  have hoff : (begin w a).io.unfragLen=40 := by decide
  have hn : Ip6.payloadLen a.pkt/8+1≤
      ((replicate 163 (⟨zero,1280⟩ : NextArgs)).filter fun n : NextArgs => a.mtu.toNat≤n.cap).length := by
    rw [filter_replicate_of_pos (by decide),length_replicate]
    decide
  exact ⟨hok,by decide,m,hunfrag.symm.trans hoff,(hall _ ⟨zero,0⟩ (hends _ hn _)).1⟩

end IdemIp.Ip6Frag
