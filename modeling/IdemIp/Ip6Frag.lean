import IdemIp.IpHeaders
import Mathlib.Logic.Relation

/-!
# Header chains and the cutting of an IPv6 packet

Walking a packet put together meets the headers the walk over its first fragment
met, but for the Fragment header. The cursor of `ip6_frag.c` divides that path
behind the Per-Fragment headers and writes the Fragmentable Part piece by piece.
Numbers and pointers are modelled as in `Ip4Frag`.
-/

namespace IdemIp.Ip6

section Walk

variable {p : Octets} {len fuel : ℕ} {c e : Chain}

/-- The header a walk stands at is stepped over; `e` is the state with what was noted of it. -/
structure Chain.Passes (p : Octets) (len : ℕ) (c e : Chain) : Prop where
  ext : nhIsExt c.nextHdr=true
  hop : c.nextHdr=0 → c.hops=0
  fits : c.offset+c.step p≤len
  whole : c.nextHdr=44 → fragOffsetBytes (p.drop c.offset)=0
  noted : (c.noteFrag.noteRouting p).noteOptions p=some e

theorem Chain.Passes.keeps (h : c.Passes p len e) : e.offset=c.offset ∧ e.nextHdr=c.nextHdr ∧ e.hops=c.hops ∧ e.ok=c.ok ∧
      e.fragHdr=if c.nextHdr=44 then c.offset else c.fragHdr := by
  obtain ⟨h1,h2,h3⟩ := Chain.noted h.noted
  have hr : ∀ d : Chain,(d.noteRouting p).ok=d.ok ∧ (d.noteRouting p).fragHdr=d.fragHdr := by
    intro d
    unfold Chain.noteRouting
    split_ifs <;> exact ⟨rfl,rfl⟩
  have ho : ∀ d : Chain,d.noteOptions p=some e → e.ok=d.ok ∧ e.fragHdr=d.fragHdr := by
    intro d hd
    unfold Chain.noteOptions at hd
    split at hd
    · split at hd <;> cases hd <;> exact ⟨rfl,rfl⟩
    · cases hd
      exact ⟨rfl,rfl⟩
  have hf : c.noteFrag.ok=c.ok ∧ c.noteFrag.fragHdr=if c.nextHdr=44 then c.offset else c.fragHdr := by
    unfold Chain.noteFrag
    split_ifs <;> exact ⟨rfl,rfl⟩
  obtain ⟨h4,h5⟩ := ho _ h.noted
  obtain ⟨h6,h7⟩ := hr c.noteFrag
  exact ⟨h1,h2,h3,h4.trans (h6.trans hf.1),h5.trans (h7.trans hf.2)⟩

/-- Every way one turn of the walk can go. -/
inductive Chain.Turn (p : Octets) (len fuel : ℕ) (c : Chain) : Chain → Prop
  /-- The walk stands at the upper-layer header. -/
  | arrives (hext : nhIsExt c.nextHdr=false) : Chain.Turn p len fuel c {c with ok := true}
  | passes (e : Chain) (h : c.Passes p len e) : Chain.Turn p len fuel c (walkFrom p len fuel (e.advance p))
  /-- It stands at a Fragment header behind which lies data. -/
  | data (h44 : c.nextHdr=44) (hoff : fragOffsetBytes (p.drop c.offset)≠0) (u : Chain) (hu : u.fragHdr=c.offset)
    (ho : u.offset=c.offset+8) (hfit : u.offset≤len) : Chain.Turn p len fuel c u
  | stops (u : Chain) (hu : u.ok=c.ok) : Chain.Turn p len fuel c u

theorem walkFrom_turn (p : Octets) (len fuel : ℕ) (c : Chain) : c.Turn p len fuel (walkFrom p len (fuel+1) c) := by
  have hn : (c.noteFrag.noteRouting p).ok=c.ok := by
    unfold Chain.noteRouting Chain.noteFrag
    split_ifs <;> rfl
  rw [walkFrom.eq_2]
  split_ifs with he hh hu hs hd
  · exact .arrives (by simpa using he)
  · exact .stops _ rfl
  · exact .stops _ rfl
  · exact .stops _ rfl
  · refine .data hd.1 hd.2 _ ?_ rfl (Nat.not_lt.1 hu)
    unfold Chain.noteFrag
    rw [if_pos hd.1]
  dsimp only
  cases ho : (c.noteFrag.noteRouting p).noteOptions p with
  | none => exact .stops _ hn
  | some e =>
    refine .passes e ⟨by simpa using he,fun h0 => ?_,by omega,fun h44 => ?_,ho⟩
    · by_contra hne
      exact hh ⟨h0,hne⟩
    · by_contra hne
      exact hd ⟨h44,hne⟩

/-- A walk that ends well, header by header. -/
inductive Chain.Walks (p : Octets) (len : ℕ) : Chain → Chain → Prop
  | arrives {c : Chain} (hext : nhIsExt c.nextHdr=false) : Chain.Walks p len c {c with ok := true}
  | data {c u : Chain} (h44 : c.nextHdr=44) (hoff : fragOffsetBytes (p.drop c.offset)≠0) (hu : u.fragHdr=c.offset)
    (ho : u.offset=c.offset+8) (hfit : u.offset≤len) : Chain.Walks p len c u
  | passes {c e u : Chain} (h : c.Passes p len e) (hw : Chain.Walks p len (e.advance p) u) : Chain.Walks p len c u

theorem walkFrom_walks (hc : c.ok=false) (hok : (walkFrom p len fuel c).ok) : c.Walks p len (walkFrom p len fuel c) := by
  induction fuel generalizing c with
  | zero =>
    rw [walkFrom.eq_1,hc] at hok
    cases hok
  | succ fuel ih =>
    have ht := walkFrom_turn p len fuel c
    generalize walkFrom p len (fuel+1) c=u at ht hok ⊢
    cases ht with
    | arrives he => exact .arrives he
    | data h44 hof _ hu ho hf => exact .data h44 hof hu ho hf
    | passes e h => exact .passes h (ih (h.keeps.2.2.2.1.trans hc) hok)
    | stops _ hu =>
      rw [hu,hc] at hok
      cases hok

theorem walk_walks (hok : (walk p len).ok) : Chain.Walks p len ⟨40,0,0,6,0,p 6,0,false,false,false,false⟩ (walk p len) := by
  unfold walk at hok ⊢
  split_ifs at hok ⊢
  exact walkFrom_walks rfl hok

theorem Chain.Passes.moved (h : c.Passes p len e) : (e.advance p).offset=c.offset+c.step p ∧ 8 ≤ c.step p ∧
    (e.advance p).fragHdr=if c.nextHdr=44 then c.offset else c.fragHdr := by
  obtain ⟨h1,h2,-,-,h5⟩ := h.keeps
  exact ⟨Chain.advance_offset h1 h2,c.eight_le_step p,h5⟩

theorem Chain.Passes.frag_lt (h : c.Passes p len e) (hc : c.fragHdr < c.offset) :
    (e.advance p).fragHdr<(e.advance p).offset := by
  obtain ⟨ho,h8,hf⟩ := h.moved
  rw [ho,hf]
  split_ifs <;> omega

theorem Chain.Walks.fragHdr {u : Chain} (h : c.Walks p len u) (hc : c.fragHdr < c.offset) :
    u.fragHdr=c.fragHdr ∨ c.offset≤u.fragHdr := by
  induction h with
  | arrives => exact .inl rfl
  | data _ _ hu => exact .inr (Nat.le_of_eq hu.symm)
  | passes h _ ih =>
    obtain ⟨ho,h8,hf⟩ := h.moved
    rcases ih (h.frag_lt hc) with hr|hr
    · rw [hr,hf]
      split_ifs
      · exact .inr le_rfl
      · exact .inl rfl
    · exact .inr (by omega)

theorem Chain.Walks.past {u : Chain} (h : c.Walks p len u) (hc : c.fragHdr+8 ≤ c.offset) : u.fragHdr+8≤u.offset := by
  induction h with
  | arrives => exact hc
  | data _ _ hu ho => omega
  | passes h _ ih =>
    obtain ⟨hof,h8,hf⟩ := h.moved
    refine ih ?_
    rw [hof,hf]
    split_ifs <;> omega

/-- A walk that ends well stands inside the span, at or behind where it began. -/
theorem Chain.Walks.offset {u : Chain} (h : c.Walks p len u) (hle : c.offset≤len) : c.offset≤u.offset ∧ u.offset≤len := by
  induction h with
  | arrives => exact ⟨le_rfl,hle⟩
  | data _ _ _ ho hf => exact ⟨by omega,hf⟩
  | passes h _ ih =>
    obtain ⟨hof,-,-⟩ := h.moved
    have hft := h.fits
    have hr := ih (by omega)
    exact ⟨by omega,hr.2⟩

/-- An upper-layer header a walk reached lies behind the fixed header and inside the span. -/
theorem walk_offset (hok : (walk p len).ok) : 40≤(walk p len).offset ∧ (walk p len).offset≤len := by
  refine (walk_walks hok).offset ?_
  unfold walk at hok
  split_ifs at hok with hl
  exact Nat.not_lt.1 hl

theorem walk_past (hok : (walk p len).ok) : (walk p len).fragHdr+8≤(walk p len).offset :=
  (walk_walks hok).past (show 0+8≤40 by omega)

end Walk

/-- Where the Next Header value of the header at `fh` stands, from the header at hand on. -/
def nextAtFrom (p : Octets) (fh : ℕ) : ℕ → ℕ → ℕ → ℕ
  | 0,_,at_ => at_
  | fuel+1,off,at_ =>
    if off=fh then at_ else nextAtFrom p fh fuel (off+if p at_=44 then 8 else extLen (p.drop off)) off

/-- Where the Next Header value of the header at `fh` stands. -/
def nextAt (p : Octets) (fh : ℕ) : ℕ := nextAtFrom p fh (fh/8) 40 6

/-- One packet is another without its Fragment header at `fh`: the header before names what that named. -/
structure Unfragmented (p : Octets) (bound fh : ℕ) (q : Octets) : Prop where
  before : ∀ i<fh,6 ≤ i → i≠nextAt p fh → q i=p i
  next : q (nextAt p fh)=p fh
  behind : ∀ x,fh+8+x<bound → q (fh+x)=p (fh+8+x)

section Agree

variable {p q : Octets} {bound len fh : ℕ} {c d u v : Chain}

theorem Chain.Passes.advanced {e : Chain} (h : c.Passes p bound e) (hc : 8*c.hops+40 ≤ c.offset) (hb : bound<2^17) :
    (e.advance p).offset=c.offset+c.step p ∧ (e.advance p).nextHdr=p c.offset ∧ (e.advance p).hops=c.hops+1 ∧
      (e.advance p).nextHdrOff=c.offset := by
  obtain ⟨h1,h2,h3,-,-⟩ := h.keeps
  have hf := h.fits
  refine ⟨Chain.advance_offset h1 h2,?_,?_,h1⟩
  · show p e.offset=p c.offset
    rw [h1]
  · show (e.hops+1)%2^16=c.hops+1
    rw [h3]
    omega

theorem Chain.Walks.behind (h : c.Walks p bound u) (hq : ∀ x,fh+8+x<bound → q (fh+x)=p (fh+8+x)) (hb : bound<2^17)
    (hfr : c.fragHdr=fh) (hlw : fh+8 ≤ c.offset) (hc : 8*c.hops+40 ≤ c.offset) (hof : d.offset+8=c.offset)
    (hnx : d.nextHdr=c.nextHdr) (hd : 8*d.hops+40≤d.offset) (hln : len<2^17) (hl : u.fragHdr=fh)
    (h' : d.Walks q len v) : v.nextHdr=u.nextHdr ∧ v.offset+8=u.offset := by
  induction h generalizing d with
  | arrives he =>
    cases h' with
    | arrives => exact ⟨hnx,hof⟩
    | passes h' =>
      have hx := h'.ext
      rw [hnx,he] at hx
      cases hx
    | data h44 =>
      rw [←hnx,h44] at he
      cases he
  | data _ _ hu => omega
  | @passes c e u h hw ih =>
    obtain ⟨ho,hn,hh,-⟩ := h.advanced hc hb
    obtain ⟨-,h8,hf⟩ := h.moved
    have hft := h.fits
    -- another Fragment hed would be the one named
    have hne : c.nextHdr≠44 := by
      intro h44
      have hfh : (e.advance p).fragHdr=c.offset := hf.trans (if_pos h44)
      rcases hw.fragHdr (by omega) with hr|hr <;> omega
    cases h' with
    | arrives hext' =>
      have hx := h.ext
      rw [←hnx,hext'] at hx
      cases hx
    | data h44 => exact absurd (hnx.symm.trans h44) hne
    | @passes _ e' _ h' hw' =>
      obtain ⟨ho',hn',hh',-⟩ := h'.advanced hd hln
      have hrd : ∀ k,k<2 → q (d.offset+k)=p (c.offset+k) := by
        intro k hk
        have hx := hq (d.offset-fh+k) (by omega)
        rwa [show fh+(d.offset-fh+k)=d.offset+k by omega,show fh+8+(d.offset-fh+k)=c.offset+k by omega] at hx
      have hs : d.step q=c.step p := by
        unfold Chain.step
        rw [if_neg hne,if_neg (by rwa [hnx])]
        unfold extLen Octets.drop
        rw [hrd 1 (by omega)]
      refine ih (hf.trans ((if_neg hne).trans hfr)) (by omega) (by omega) (by omega) ?_ (by omega) hl hw'
      rw [hn',hn]
      exact hrd 0 (by omega)

/-- The Next Header value looked for is the one at hand, or stands in this header or a later one. -/
theorem nextAtFrom_cases (p : Octets) (fh k off at_ : ℕ) : nextAtFrom p fh k off at_=at_ ∨ off≤nextAtFrom p fh k off at_ := by
  induction k generalizing off at_ with
  | zero => exact .inl rfl
  | succ k ih =>
    unfold nextAtFrom
    split_ifs with hfh h44
    · exact .inl rfl
    · rcases ih (off+8) off with hr|hr <;> exact .inr (by omega)
    · rcases ih (off+extLen (p.drop off)) off with hr|hr <;> exact .inr (by omega)

/-- A walk that ends with the Fragment header at `fh` named has not gone past it. -/
theorem Chain.Passes.reaches {e : Chain} (h : c.Passes p bound e) (hfr : c.fragHdr < c.offset)
    (hw : (e.advance p).Walks p bound u) (hl : u.fragHdr=fh) :
    (c.nextHdr=44 ∧ c.offset=fh) ∨ c.fragHdr=fh ∨ (e.advance p).offset≤fh := by
  have hf := h.moved.2.2
  rcases hw.fragHdr (h.frag_lt hfr) with hr|hr
  · rw [hf] at hr
    split_ifs at hr with h44
    · exact .inl ⟨h44,by omega⟩
    · exact .inr (.inl (by omega))
  · exact .inr (.inr (by omega))

theorem nextAtFrom_advance {e : Chain} (h : c.Passes p bound e) (hc : 8*c.hops+40 ≤ c.offset) (hb : bound<2^17)
    (hcn : c.nextHdr=p c.nextHdrOff) (hfh : c.offset≠fh) (k : ℕ) : nextAtFrom p fh (k+1) c.offset c.nextHdrOff=
      nextAtFrom p fh k (e.advance p).offset (e.advance p).nextHdrOff := by
  obtain ⟨ho,-,-,hno⟩ := h.advanced hc hb
  rw [nextAtFrom.eq_2,if_neg hfh,ho,hno,←hcn]
  rfl

theorem Chain.Walks.nextAt_lt {k : ℕ} (h : c.Walks p bound u) (hk : fh ≤ c.offset+8*k) (hf : c.fragHdr < c.offset)
    (hle : c.offset≤fh) (hat : c.nextHdrOff < c.offset) (hc : 8*c.hops+40 ≤ c.offset) (hb : bound<2^17)
    (hcn : c.nextHdr=p c.nextHdrOff) (hl : u.fragHdr=fh) : nextAtFrom p fh k c.offset c.nextHdrOff<fh := by
  induction k generalizing c with
  | zero => exact Nat.lt_of_lt_of_le hat hle
  | succ k ih =>
    by_cases hfh : c.offset=fh
    · rw [nextAtFrom.eq_2,if_pos hfh]
      omega
    cases h with
    | arrives he =>
      have hs : c.fragHdr=fh := hl
      omega
    | data => omega
    | passes h hw =>
      obtain ⟨ho,hn,hh,hno⟩ := h.advanced hc hb
      have h8 := c.eight_le_step p
      have hr := h.reaches hf hw hl
      rw [nextAtFrom_advance h hc hb hcn hfh]
      exact ih hw (by omega) (h.frag_lt hf) (by omega) (by omega) (by omega) (by rw [hn,hno])

theorem Chain.Walks.before {k : ℕ} (h : c.Walks p bound u) (h' : d.Walks q len v)
    (hbf : ∀ i<fh,6 ≤ i → i≠nextAtFrom p fh k c.offset c.nextHdrOff → q i=p i)
    (hnx : q (nextAtFrom p fh k c.offset c.nextHdrOff)=p fh) (hq : ∀ x,fh+8+x<bound → q (fh+x)=p (fh+8+x))
    (hz : fragOffsetBytes (p.drop fh)=0) (hk : fh ≤ c.offset+8*k) (hb : bound<2^17) (hln : len<2^17)
    (hfrag : c.fragHdr < c.offset) (hle : c.offset≤fh) (hlw : 6 ≤ c.nextHdrOff) (hat : c.nextHdrOff < c.offset)
    (hc : 8*c.hops+40 ≤ c.offset) (hcn : c.nextHdr=p c.nextHdrOff) (hdn : d.nextHdr=q c.nextHdrOff)
    (hof : d.offset=c.offset) (hhp : d.hops=c.hops) (hl : u.fragHdr=fh) : v.nextHdr=u.nextHdr ∧ v.offset+8=u.offset := by
  induction h generalizing d k with
  | @arrives c he =>
    have hs : c.fragHdr=fh := hl
    omega
  | data h44 hd hu =>
    rw [←hu,hl] at hd
    exact absurd hz hd
  | @passes c e u h hw ih =>
    obtain ⟨ho,hn,hh,hno⟩ := h.advanced hc hb
    obtain ⟨-,h8,hf⟩ := h.moved
    have hrc := h.reaches hfrag hw hl
    by_cases hfh : c.offset=fh
    · -- the other packet goes on with what the Fragment hed names
      have h44 : c.nextHdr=44 := by
        rcases hrc with hr|hr|hr
        · exact hr.1
        · omega
        · omega
      have hst : c.step p=8 := if_pos h44
      have hat' : nextAtFrom p fh k c.offset c.nextHdrOff=c.nextHdrOff := by
        cases k with
        | zero => rfl
        | succ k =>
          exact if_pos hfh
      rw [hat'] at hnx
      refine hw.behind hq hb (hf.trans ((if_pos h44).trans hfh)) (by omega) (by omega) (by omega) ?_ (by omega) hln hl h'
      rw [hdn,hnx,hn,hfh]
    cases k with
    | zero => omega
    | succ k =>
      have hat' := nextAtFrom_advance h hc hb hcn hfh k
      have hp := nextAtFrom_cases p fh k (e.advance p).offset (e.advance p).nextHdrOff
      rw [←hat',hno] at hp
      have hs : d.nextHdr=c.nextHdr := by
        rw [hdn,hcn]
        exact hbf _ (by omega) hlw (by omega)
      have hrd : ∀ j,0<j → j<4 → q (c.offset+j)=p (c.offset+j) :=
        fun j hj hj' => hbf _ (by omega) (by omega) (by omega)
      have hstep' : d.step q=c.step p := by
        unfold Chain.step extLen Octets.drop
        rw [hs,hof,hrd 1 (by omega) (by omega)]
      have hfr : fragOffsetBytes (q.drop d.offset)=fragOffsetBytes (p.drop c.offset) := by
        have hwr : ((q.drop d.offset).drop 2).rd16=((p.drop c.offset).drop 2).rd16 := by
          show q (d.offset+2)++q (d.offset+3)=p (c.offset+2)++p (c.offset+3)
          rw [hof,hrd 2 (by omega) (by omega),hrd 3 (by omega) (by omega)]
        unfold fragOffsetBytes
        rw [hwr]
      cases h' with
      | arrives he =>
        have hx := h.ext
        rw [←hs,he] at hx
        cases hx
      | data h44 hd =>
        rw [hfr] at hd
        exact absurd (h.whole (hs.symm.trans h44)) hd
      | passes h' hw' =>
        obtain ⟨ho',hn',hh',hno'⟩ := h'.advanced (by omega) hln
        rw [hat'] at hbf hnx
        have hreach' : (e.advance p).offset≤fh := by
          rcases hrc with hr|hr|hr <;> omega
        exact ih hw' hbf hnx (by omega) (h.frag_lt hfrag) hreach' (by omega) (by omega) (by omega) (by rw [hn,hno])
          (by rw [hn',hno,hof]) (by omega) (by omega) hl

/-- A walk without the Fragment header another walk named last ends, if well, at the same upper-layer header. -/
theorem walk_unfragmented (h : Unfragmented p bound fh q) (hfh : 40≤fh) (hb : bound<2^17) (hln : len<2^17)
    (hz : fragOffsetBytes (p.drop fh)=0) (hok : (walk p bound).ok) (hl : (walk p bound).fragHdr=fh) (hok' : (walk q len).ok) :
    (walk q len).nextHdr=(walk p bound).nextHdr ∧ (walk q len).offset+8=(walk p bound).offset :=
  (walk_walks hok).before (walk_walks hok') h.before h.next h.behind hz (show fh≤40+8*(fh/8) by omega) hb hln (show 0<40 by omega) hfh
    le_rfl (show 6<40 by omega) (show 8*0+40≤40 by omega) rfl rfl rfl rfl hl

/-- The Next Header value of the Fragment header a walk names stands before it. -/
theorem nextAt_lt (hfh : 40≤fh) (hb : bound<2^17) (hok : (walk p bound).ok) (hl : (walk p bound).fragHdr=fh) :
    nextAt p fh<fh :=
  (walk_walks hok).nextAt_lt (show fh≤40+8*(fh/8) by omega) (show 0<40 by omega) hfh (show 6<40 by omega)
    (show 8*0+40≤40 by omega) hb rfl hl

end Agree

end IdemIp.Ip6

namespace IdemIp

namespace Ip6

/-- Write the Payload Length, `idemip_ip6_set_payload_len`. -/
def setPayloadLen (h : Octets) (len : ℕ) : Octets := h.wr16 4 (BitVec.ofNat 16 len)

/-- The offset and the M flag as the Fragment header holds them. -/
def offsetMore (offset : ℕ) (more : Bool) : BitVec 16 :=
  BitVec.ofNat 16 offset &&& 0xFFF8 ||| if more then 1 else 0

/-- Write a Fragment header behind the first `off` octets, `idemip_ip6_frag_build`. -/
def fragBuild (p : Octets) (off : ℕ) (nextHdr : BitVec 8) (offset : ℕ) (more : Bool) (ident : BitVec 32) : Octets :=
  (((p.wr8 off nextHdr).wr8 (off+1) 0).wr16 (off+2) (offsetMore offset more)).wr32 (off+4) ident

end Ip6

namespace Ip6Frag

/-- Why a call was refused, `IdemIpIp6FragError`. -/
inductive Error
  | none | header | fragmented | mtu | headers | room | done | state
deriving DecidableEq

/-- The split in progress, `Ip6FragCtx`. -/
structure Ctx where
  /-- `clear` ran. -/
  ready : Bool
  pkt : Octets
  ident : BitVec 32
  (dataLen cursor chunk unfragLen : ℕ)
  /-- Where the last of them names what follows. -/
  (nhOff index : ℕ)
  nextHdr : BitVec 8
  (split opened done : Bool)

/-- Results of a call, the members of `Ip6FragIo` behind its operands. -/
structure Io where
  status : Status
  err : Error
  (split more : Bool)
  (index offset len hdrLen dataLen unfragLen : ℕ)
  nextHdr : BitVec 8

/-- The caller's borrow. -/
structure Work where
  io : Io
  ctx : Ctx

/-- Operands of `begin`, `Ip6FragBeginArgs`. -/
structure BeginArgs where
  pkt : Octets
  len : ℕ
  ident : BitVec 32
  mtu : BitVec 16
  /-- Octets of the upper-layer header, zero when the caller does not know. -/
  upperHdrLen : BitVec 16

variable (w : Work) (a : BeginArgs) (c : Ctx)

/-- Operands of `next`, `Ip6FragNextArgs`. -/
structure NextArgs where
  out : Octets
  cap : ℕ

/-- What the chain walk finds, `Ip6FragChain`. -/
structure Chain where
  unfrag : ℕ
  /-- Where the last of them names what follows. -/
  (nhOff extEnd : ℕ)
  (fragmented ok : Bool)

/-- The loop of `ip6_frag_walk` from a header on. -/
def fragWalkFrom (pkt : Octets) (len : ℕ) : ℕ → ℕ → BitVec 8 → ℕ → Chain → Chain
  | 0,_,_,_,c => c
  | fuel+1,off,nh,hops,c =>
    if !Ip6.nhIsExt nh then {c with extEnd := off,ok := true}
    else if nh=44 then {c with fragmented := true}
    else if nh=0 ∧ hops≠0 then c
    else if len<off+8 then c
    else if len<off+Ip6.extLen (pkt.drop off) then c
    else
      let step := Ip6.extLen (pkt.drop off)
      let d := if nh=43 ∨ nh=0 ∧ hops=0 then {c with unfrag := off+step,nhOff := off} else c
      fragWalkFrom pkt len fuel (off+step) (pkt off) ((hops+1)%2^16) d

/-- Step the chain for where the Per-Fragment headers end, `ip6_frag_walk`. -/
def fragWalk (pkt : Octets) (len : ℕ) : Chain := fragWalkFrom pkt len (len/8+1) 40 (pkt 6) 0 ⟨40,6,40,false,false⟩

/-- What a packet that is not cut leaves in the context. -/
def Ctx.fill (pkt : Octets) (ident : BitVec 32) : Ctx :=
  {c with pkt,ident,unfragLen := 40,nhOff := 6,nextHdr := pkt 6,dataLen := Ip6.payloadLen pkt,cursor := 0,index := 0,
          chunk := Ip6.payloadLen pkt,split := false,opened := false,done := false}

/-- Octets of the upper-layer header the first fragment has to reach, one when the caller does not know. -/
def BeginArgs.upper : ℕ := if a.upperHdrLen≠0 then a.upperHdrLen.toNat else 1

/-- Octets of the Fragmentable Part a fragment holds, in whole units. -/
def chunkOf (mtu head : ℕ) : ℕ := (mtu-head)/8*8

/-- The measurement of a packet, `ip6_frag_take`. -/
def take : Work :=
  let shut : Ctx := {w.ctx with opened := false,done := false}
  let refuse (err : Error) (c : Ctx) : Work := ⟨{w.io with err},c⟩
  let accept (c : Ctx) : Work :=
    ⟨{w.io with split := c.split,unfragLen := c.unfragLen,nextHdr := c.nextHdr,status := .ok},{c with opened := true}⟩
  let pktLen := 40+Ip6.payloadLen a.pkt
  if a.len<40 ∨ Ip6.version a.pkt≠6 then refuse .header shut
  else if a.len<pktLen then refuse .header shut
  else if a.mtu.toNat<1280 then refuse .mtu shut
  else
    let whole := shut.fill a.pkt a.ident
    if a.mtu.toNat<pktLen then
      let c := fragWalk a.pkt pktLen
      let head := c.unfrag+8
      let chunk := chunkOf a.mtu.toNat head
      if c.fragmented then refuse .fragmented whole
      else if c.ok=false then refuse .header whole
      else if a.mtu.toNat<head+8 then refuse .headers whole
      else if chunk < c.extEnd-c.unfrag+a.upper then refuse .headers whole
      else
        accept {whole with unfragLen := c.unfrag,nhOff := c.nhOff,nextHdr := a.pkt c.nhOff,dataLen := pktLen-c.unfrag,
                           chunk,split := true}
    else accept whole

/-- Octets of the Fragmentable Part in the fragment the cursor stands on. -/
def Ctx.chunkNow : ℕ := if c.chunk < c.dataLen-c.cursor then c.chunk else c.dataLen-c.cursor

def Ctx.hdrNow : ℕ := if c.split then c.unfragLen+8 else 40

def Ctx.lenNow : ℕ := c.hdrNow+c.chunkNow

def Ctx.moreNow : Bool := c.cursor+c.chunkNow < c.dataLen

/-- The Per-Fragment headers, a Fragment header and the octets the cursor stands on, `ip6_frag_emit`. -/
def emit (out : Octets) (chunk : ℕ) (more : Bool) : Octets :=
  let out := out.copy 0 c.pkt c.unfragLen
  let out := out.wr8 c.nhOff 44
  let out := Ip6.setPayloadLen out (c.unfragLen-40+8+chunk)
  let out := Ip6.fragBuild out c.unfragLen c.nextHdr c.cursor more c.ident
  out.copy (c.unfragLen+8) (c.pkt.drop (c.unfragLen+c.cursor)) chunk

/-- The buffer with the fragment the cursor stands on. -/
def Ctx.emit (out : Octets) : Octets :=
  if !c.split then out.copy 0 c.pkt c.lenNow else Ip6Frag.emit c out c.chunkNow c.moreNow

/-- The cursor behind that fragment. -/
def Ctx.advance : Ctx :=
  let cursor := c.cursor+c.chunkNow
  {c with cursor,index := (c.index+1)%2^16,done := c.dataLen ≤ cursor}

/-- The fragment the cursor stands on, into the caller's buffer, `ip6_frag_write`. -/
def write (a : NextArgs) : Work×Octets :=
  let c := w.ctx
  if c.opened=false then (⟨{w.io with err := .state},c⟩,a.out)
  else if c.done then (⟨{w.io with err := .done},c⟩,a.out)
  else if a.cap < c.lenNow then (⟨{w.io with err := .room},c⟩,a.out)
  else
    (⟨{w.io with index := c.index,offset := c.cursor,more := c.moreNow,len := c.lenNow,hdrLen := c.hdrNow,dataLen := c.chunkNow,
                  unfragLen := c.unfragLen,nextHdr := c.nextHdr,status := .ok},c.advance⟩,c.emit a.out)

/-- Results before a call ran. -/
def Io.reset (io : Io) (err : Error) : Io :=
  {io with status := .err,err,more := false,index := 0,offset := 0,len := 0,hdrLen := 0,dataLen := 0}

/-- A context of zeros with the mark, `idemip_ip6_frag_clear`. -/
def clear : Work :=
  ⟨{w.io with status := .ok},⟨true,Octets.zero,0,0,0,0,0,0,0,0,false,false,false⟩⟩

/-- Take a packet to cut, `idemip_ip6_frag_begin`. -/
def begin : Work :=
  let io := {w.io with split := false,unfragLen := 0,nextHdr := 59}
  if w.ctx.ready then take ⟨io.reset .none,w.ctx⟩ a else ⟨io.reset .state,w.ctx⟩

/-- Write the next fragment, `idemip_ip6_frag_next`; the buffer is beside the borrow. -/
def next (a : NextArgs) : Work×Octets :=
  if w.ctx.ready then write ⟨w.io.reset .none,w.ctx⟩ a else (⟨w.io.reset .state,w.ctx⟩,a.out)

end Ip6Frag

end IdemIp

namespace IdemIp.Ip6

/-- Where a walk stands. -/
structure Stand where
  refused : Bool
  (off at_ hops : ℕ)

def Stand.first : Stand := ⟨false,40,6,0⟩

def Stand.step (s : Stand) (p : Octets) : ℕ := if p s.at_=44 then 8 else extLen (p.drop s.off)

/-- Whether an option is refused here or was before; none when an option runs past its header. -/
def Stand.note (s : Stand) (p : Octets) : Option Bool :=
  if (p s.at_=0 ∨ p s.at_=60) ∧ s.refused=false then
    match optsRefused p (s.off+s.step p) (s.step p) (s.off+2) with
    | .clean => some s.refused
    | .malformed => none
    | .refused _ => some true
  else some s.refused

/-- The extension header at hand is stepped over. -/
structure Header (p : Octets) (len : ℕ) (s t : Stand) : Prop where
  ext : nhIsExt (p s.at_)=true
  hop : p s.at_=0 → s.hops=0
  fits : t.off≤len
  whole : p s.at_=44 → fragOffsetBytes (p.drop s.off)=0
  noted : s.note p=some t.refused
  off : t.off=s.off+s.step p
  at_ : t.at_=s.off
  hops : t.hops=s.hops+1

/-- Headers stepped over one after the other. -/
abbrev Path (p : Octets) (len : ℕ) : Stand → Stand → Prop := Relation.ReflTransGen (Header p len)

/-- Where a walk stands, of all that it keeps. -/
structure Chain.Stands (p : Octets) (c : Chain) (s : Stand) : Prop where
  refused : c.refused=s.refused
  off : c.offset=s.off
  nextHdr : c.nextHdr=p s.at_
  hops : c.hops=s.hops
  open_ : c.ok=false
  /-- A header is eight octets at least. -/
  count : 8*s.hops+40 ≤ s.off

section Steps

variable {p : Octets} {len fuel : ℕ} {c e : Chain} {s t m : Stand}

theorem Stand.eight_le_step (s : Stand) (p : Octets) : 8 ≤ s.step p := by
  unfold Stand.step extLen
  split_ifs <;> omega

theorem Chain.Stands.step (h : c.Stands p s) : c.step p=s.step p := by
  unfold Chain.step Stand.step
  rw [h.nextHdr,h.off]

theorem Chain.Stands.noted (h : c.Stands p s) : (c.noteFrag.noteRouting p).noteOptions p=none ∧ s.note p=none ∨
      ∃ e,(c.noteFrag.noteRouting p).noteOptions p=some e ∧ s.note p=some e.refused := by
  obtain ⟨d,hd⟩ : ∃ d,c.noteFrag.noteRouting p=d := ⟨_,rfl⟩
  have hs : d.offset=c.offset ∧ d.nextHdr=c.nextHdr ∧ d.refused=c.refused := by
    rw [←hd]
    unfold Chain.noteRouting Chain.noteFrag
    split_ifs <;> exact ⟨rfl,rfl,rfl⟩
  obtain ⟨h1,h2,h3⟩ := hs
  have hst : d.step p=s.step p := by
    rw [←h.step]
    unfold Chain.step
    rw [h1,h2]
  rw [hd]
  unfold Chain.noteOptions Stand.note
  rw [hst,h1,h2,h3,h.off,h.nextHdr,h.refused]
  by_cases ho : (p s.at_=0 ∨ p s.at_=60) ∧ s.refused=false
  · rw [if_pos ho,if_pos ho]
    cases optsRefused p (s.off+s.step p) (s.step p) (s.off+2) with
    | clean => exact .inr ⟨d,rfl,by rw [h3,h.refused]⟩
    | malformed => exact .inl ⟨rfl,rfl⟩
    | refused off => exact .inr ⟨_,rfl,rfl⟩
  · rw [if_neg ho,if_neg ho]
    exact .inr ⟨d,rfl,by rw [h3,h.refused]⟩

theorem Chain.Passes.header (hp : c.Passes p len e) (h : c.Stands p s) (hb : len<2^17) :
    ∃ t,Header p len s t ∧ (e.advance p).Stands p t := by
  obtain ⟨ho,hn,hh,-⟩ := hp.advanced (by rw [h.hops,h.off]; exact h.count) hb
  have h8 := s.eight_le_step p
  have hc := h.count
  have hnt : s.note p=some e.refused := by
    rcases h.noted with ⟨hno,-⟩|⟨e',he,hs⟩
    · rw [hp.noted] at hno
      cases hno
    rw [hp.noted] at he
    obtain rfl := Option.some.inj he
    exact hs
  refine ⟨⟨e.refused,s.off+s.step p,s.off,s.hops+1⟩,⟨?_,?_,?_,?_,hnt,rfl,rfl,rfl⟩,rfl,?_,?_,?_,?_,?_⟩
  · rw [←h.nextHdr]
    exact hp.ext
  · rw [←h.nextHdr,←h.hops]
    exact hp.hop
  · show s.off+s.step p≤len
    rw [←h.off,←h.step]
    exact hp.fits
  · rw [←h.nextHdr,←h.off]
    exact hp.whole
  · rw [ho,h.off,h.step]
  · rw [hn,h.off]
  · rw [hh,h.hops]
  · exact hp.keeps.2.2.2.1.trans h.open_
  · show 8*(s.hops+1)+40 ≤ s.off+s.step p
    omega

theorem Header.passes (ht : Header p len s t) (h : c.Stands p s) (hb : len<2^17) (fuel : ℕ) :
    ∃ e : Chain,walkFrom p len (fuel+1) c=walkFrom p len fuel (e.advance p) ∧ (e.advance p).Stands p t := by
  have hf := ht.fits
  have h8 := s.eight_le_step p
  rw [ht.off] at hf
  rcases h.noted with ⟨-,hs⟩|⟨e,he,hs⟩
  · rw [ht.noted] at hs
    cases hs
  have hp : c.Passes p len e := by
    refine ⟨?_,?_,?_,?_,he⟩
    · rw [h.nextHdr]
      exact ht.ext
    · rw [h.nextHdr,h.hops]
      exact ht.hop
    · rw [h.off,h.step]
      exact hf
    · rw [h.nextHdr,h.off]
      exact ht.whole
  refine ⟨e,?_,?_⟩
  · rw [walkFrom.eq_2,if_neg (by rw [hp.ext]; decide),if_neg fun hx => hx.2 (hp.hop hx.1),if_neg (by rw [h.off]; omega),
      if_neg (Nat.not_lt.2 hp.fits),if_neg fun hx => hx.2 (hp.whole hx.1)]
    dsimp only
    rw [he]
  · obtain ⟨t',ht',hst⟩ := hp.header h hb
    have hsm : t'=t := by
      have hr : some t'.refused=some t.refused := ht'.noted.symm.trans ht.noted
      cases t'
      cases t
      obtain ⟨-,-,-,-,-,h1,h2,h3⟩ := ht'
      obtain ⟨-,-,-,-,-,h4,h5,h6⟩ := ht
      dsimp only at h1 h2 h3 h4 h5 h6 hr
      rw [Option.some.inj hr,h1,h2,h3,h4,h5,h6]
    exact hsm ▸ hst

/-- A path goes forward: it ends where it began or past the first header on it. -/
theorem path_forward (h : Path p len s t) (hs : s.at_ < s.off) :
    t.at_<t.off ∧ s.off≤t.off ∧ s.hops≤t.hops ∧ (t=s ∨ s.off≤t.at_ ∧ 0<t.hops) := by
  induction h with
  | refl => exact ⟨hs,le_rfl,le_rfl,.inl rfl⟩
  | @tail m t _ hst ih =>
    obtain ⟨-,ho,hh,-⟩ := ih
    have h8 := m.eight_le_step p
    have h1 := hst.off
    have h2 := hst.at_
    have h3 := hst.hops
    exact ⟨by omega,by omega,by omega,.inr ⟨by omega,by omega⟩⟩

theorem walkFrom_path (h : Path p len s t) (ht : nhIsExt (p t.at_)=false) (hb : len<2^17) (hc : c.Stands p s)
    (hf : t.off-s.off<8*fuel) :
    (walkFrom p len fuel c).ok ∧ (walkFrom p len fuel c).offset=t.off ∧ (walkFrom p len fuel c).nextHdr=p t.at_ := by
  induction h using Relation.ReflTransGen.head_induction_on generalizing c fuel with
  | refl =>
    obtain ⟨fuel,rfl⟩ : ∃ n,fuel=n+1 := ⟨fuel-1,by omega⟩
    rw [walkFrom.eq_2,if_pos (by rw [hc.nextHdr,ht]; rfl)]
    exact ⟨rfl,hc.off,hc.nextHdr⟩
  | @head s m hs hr ih =>
    obtain ⟨fuel,rfl⟩ : ∃ n,fuel=n+1 := ⟨fuel-1,by omega⟩
    obtain ⟨e,he,hst⟩ := hs.passes hc hb fuel
    have h8 := s.eight_le_step p
    have ho := hs.off
    have hat := hs.at_
    obtain ⟨-,hle,-⟩ := path_forward hr (by omega)
    rw [he]
    exact ih hst (by omega)

end Steps

/-- A header that is not one of the Per-Fragment headers: no Routing header and no Hop-by-Hop options. -/
def Plain (p : Octets) (len : ℕ) (s t : Stand) : Prop := Header p len s t ∧ p s.at_≠43 ∧ p s.at_≠0

section Moves

variable {p q : Octets} {len bound fuel k last off : ℕ} {s t r m : Stand}

/-- A scan that found the same, `k` octets further. -/
def OptScan.shift (k : ℕ) : OptScan → OptScan
  | .clean => .clean
  | .malformed => .malformed
  | .refused at_ => .refused (at_+k)

/-- Options that lie `k` octets further are scanned with the same result. -/
theorem optsRefused_shift (h : ∀ i,off ≤ i → i<last → q (i+k)=p i) :
    optsRefused q (last+k) fuel (off+k)=(optsRefused p last fuel off).shift k := by
  induction fuel generalizing off with
  | zero => rfl
  | succ fuel ih =>
    unfold optsRefused
    by_cases he : last≤off
    · rw [if_pos he,if_pos (by omega)]
      rfl
    have h0 : q (off+k)=p off := h off le_rfl (by omega)
    rw [if_neg he,if_neg (by omega),h0]
    by_cases hs : p off≠0 ∧ last<off+2
    · rw [if_pos hs,if_pos ⟨hs.1,by omega⟩]
      rfl
    have hln : optLen (q.drop (off+k))=optLen (p.drop off) := by
      unfold optLen
      rw [show (q.drop (off+k)) 0=p off from h0,show (p.drop off) 0=p off from rfl]
      split_ifs with hz
      · rfl
      have hrm : ¬last<off+2 := fun hx => hs ⟨hz,hx⟩
      have h1 : q (off+1+k)=p (off+1) := h (off+1) (by omega) (by omega)
      rw [show (q.drop (off+k)) 1=q (off+1+k) from congrArg q (Nat.add_right_comm off k 1),h1]
      rfl
    rw [if_neg hs,if_neg (fun hx => hs ⟨hx.1,by omega⟩),hln]
    by_cases hp : last<off+optLen (p.drop off)
    · rw [if_pos hp,if_pos (by omega)]
      rfl
    rw [if_neg hp,if_neg (by omega)]
    by_cases hr : p off≠0 ∧ p off≠1 ∧ p off &&& 0xC0≠0
    · rw [if_pos hr,if_pos hr]
      rfl
    · rw [if_neg hr,if_neg hr,show off+k+optLen (p.drop off)=off+optLen (p.drop off)+k by omega]
      exact ih fun i hi hl => h i (by omega) hl

/-- A header that lies `k` octets further in another packet is stepped over there. -/
theorem Header.moved (h : Header p len s t) (hr : r.refused=s.refused) (ho : r.off=s.off+k) (hn : q r.at_=p s.at_)
    (hh : p s.at_=0 → r.hops=0) (hq : ∀ i,s.off < i → i<t.off → q (i+k)=p i) (hf : t.off+k≤bound) :
    Header q bound r ⟨t.refused,t.off+k,r.off,r.hops+1⟩ := by
  have h8 := s.eight_le_step p
  have hof := h.off
  have hrd : ∀ j,0<j → j<8 → q (r.off+j)=p (s.off+j) := by
    intro j h0 hj
    rw [ho,show s.off+k+j=s.off+j+k by omega]
    exact hq (s.off+j) (by omega) (by omega)
  have hs : r.step q=s.step p := by
    unfold Stand.step extLen Octets.drop
    rw [hn,hrd 1 (by omega) (by omega)]
  refine ⟨by rw [hn]; exact h.ext,by rw [hn]; exact hh,hf,fun h44 => ?_,?_,?_,rfl,rfl⟩
  · rw [hn] at h44
    rw [←h.whole h44]
    unfold fragOffsetBytes Octets.rd16 Octets.drop
    rw [hrd (2+0) (by omega) (by omega),hrd (2+1) (by omega) (by omega)]
  · rw [←h.noted]
    unfold Stand.note
    rw [hn,hr,hs,ho,show s.off+k+s.step p=s.off+s.step p+k by omega,show s.off+k+2=s.off+2+k by omega,
      optsRefused_shift fun i hi hl => hq i (by omega) (by omega)]
    split_ifs
    · cases optsRefused p (s.off+s.step p) (s.step p) (s.off+2) <;> rfl
    · rfl
  · show t.off+k=r.off+r.step q
    omega

/-- The headers before a stand are those of a packet that names another header there. -/
theorem path_before (h : Path p len s m) (hs : s.at_ < s.off) (h6 : 6 ≤ s.at_) (hf : m.off≤bound)
    (hq : ∀ i < m.off,6 ≤ i → i≠m.at_ → q i=p i) : Path q bound s m := by
  induction h using Relation.ReflTransGen.head_induction_on with
  | refl => exact .refl
  | @head s t hst hr ih =>
    have h8 := s.eight_le_step p
    have ho := hst.off
    have hat := hst.at_
    have hh := hst.hops
    obtain ⟨-,hle,-,hm⟩ := path_forward hr (by omega)
    -- where the stand is named lies outside every header before it
    have hn : m.at_=s.off ∨ t.off ≤ m.at_ := by
      rcases hm with rfl|hm
      · exact .inl hat
      · exact .inr hm.1
    have hmv : Header q bound s t := by
      have hmv : Header q bound s ⟨t.refused,t.off+0,s.off,s.hops+1⟩ :=
        hst.moved rfl rfl (hq s.at_ (by omega) h6 (by omega)) hst.hop (fun i hi hl => hq i (by omega) (by omega) (by omega))
          (by omega)
      rw [←hat,←hh] at hmv
      exact hmv
    exact .head hmv (ih (by omega) (by omega))

theorem path_behind (h : Relation.ReflTransGen (Plain p len) m t) (hm : m.at_ < m.off) (ho : r.off=m.off+8)
    (hr : r.refused=m.refused) (hn : q r.at_=p m.at_) (hq : ∀ i,m.off ≤ i → i<t.off → q (i+8)=p i) (hf : t.off+8≤bound) :
    ∃ u,Path q bound r u ∧ u.off=t.off+8 ∧ q u.at_=p t.at_ := by
  induction h using Relation.ReflTransGen.head_induction_on generalizing r with
  | refl => exact ⟨r,.refl,ho,hn⟩
  | @head s m hs hrs ih =>
    obtain ⟨hs,-,h0⟩ := hs
    have h8 := s.eight_le_step p
    have hof := hs.off
    have hat := hs.at_
    have hp : Path p len m t := hrs.lift id fun _ _ h => h.1
    have hln := (path_forward hp (by omega)).2.1
    have hmv : Header q bound r ⟨m.refused,m.off+8,r.off,r.hops+1⟩ :=
      hs.moved hr ho hn (fun hz => (h0 hz).elim) (fun i hi hl => hq i (by omega) (by omega)) (by omega)
    obtain ⟨u,hu,hou,hnu⟩ := ih (r := ⟨m.refused,m.off+8,r.off,r.hops+1⟩) (by omega) rfl rfl (by
      rw [hat]
      rw [ho]
      exact hq s.off le_rfl (by omega)) fun i hi hl => hq i (by omega) hl
    exact ⟨u,.head hmv hu,hou,hnu⟩

end Moves

/-- The Per-Fragment headers end at `m`: "all headers up to and including the Routing header if present, else the
Hop-by-Hop Options header if present, else no extension headers". The upper-layer header is at `t`. -/
structure PerFragment (p : Octets) (len : ℕ) (m t : Stand) : Prop where
  before : Path p len .first m
  last : m=.first ∨ ∃ s,Path p len .first s ∧ Header p len s m ∧ (p s.at_=43 ∨ p s.at_=0)
  behind : Relation.ReflTransGen (Plain p len) m t
  upper : nhIsExt (p t.at_)=false

/-- A packet that begins as a first fragment: the Per-Fragment headers, a Fragment header, and `chunk` octets behind. -/
structure Leads (p : Octets) (m : Stand) (chunk : ℕ) (q : Octets) : Prop where
  before : ∀ i < m.off,6 ≤ i → i≠m.at_ → q i=p i
  named : q m.at_=44
  next : q m.off=p m.at_
  zero : fragOffsetBytes (q.drop m.off)=0
  behind : ∀ x < chunk,q (m.off+8+x)=p (m.off+x)

/-- A first fragment that holds all the headers is walked to the upper-layer header. -/
theorem PerFragment.walk_leads {p q : Octets} {len chunk : ℕ} {m t : Stand} (h : PerFragment p len m t) (hq : Leads p m chunk q)
    (ha : t.off ≤ m.off+chunk) (hb : m.off+8+chunk<2^17) :
    (walk q (m.off+8+chunk)).ok ∧ (walk q (m.off+8+chunk)).offset=t.off+8 ∧ (walk q (m.off+8+chunk)).nextHdr=p t.at_ := by
  obtain ⟨hat,h40,-,-⟩ := path_forward h.before (show 6<40 by omega)
  have h40 : 40 ≤ m.off := h40
  have hbf : Path q (m.off+8+chunk) .first m := path_before h.before (show 6<40 by omega) le_rfl (by omega) hq.before
  -- the Fragment header itself
  have hf : Header q (m.off+8+chunk) m ⟨m.refused,m.off+8,m.off,m.hops+1⟩ := by
    refine ⟨by rw [hq.named]; rfl,by rw [hq.named]; exact nofun,Nat.le_add_right _ _,fun _ => hq.zero,?_,?_,rfl,rfl⟩
    · unfold Stand.note
      rw [hq.named]
      exact if_neg fun hx => absurd hx.1 (by decide)
    · unfold Stand.step
      rw [hq.named,if_pos rfl]
  obtain ⟨u,hu,hou,hnu⟩ : ∃ u,Path q (m.off+8+chunk) ⟨m.refused,m.off+8,m.off,m.hops+1⟩ u ∧ u.off=t.off+8 ∧ q u.at_=p t.at_ := by
    refine path_behind h.behind hat rfl rfl hq.next (fun i hi hl => ?_) (by omega)
    have hx := hq.behind (i-m.off) (by omega)
    rwa [show m.off+8+(i-m.off)=i+8 by omega,show m.off+(i-m.off)=i by omega] at hx
  have hp : Path q (m.off+8+chunk) .first u := hbf.trans (.head hf hu)
  have hc : Chain.Stands q ⟨40,0,0,6,0,q 6,0,false,false,false,false⟩ .first := ⟨rfl,rfl,rfl,rfl,rfl,le_rfl⟩
  have hw := @walkFrom_path q (m.off+8+chunk) ((m.off+8+chunk)/8+1) _ _ _ hp (by rw [hnu]; exact h.upper) hb hc (by omega)
  rw [hou,hnu] at hw
  unfold walk
  rw [if_neg (by omega)]
  exact hw

end IdemIp.Ip6

namespace IdemIp.Ip6Frag

open Ip6 (Stand Header Path Plain PerFragment nhIsExt extLen)
open Relation (ReflTransGen)

/-- How the walk from `s` to `t` divides the path: where it was divided before, or behind a header met since. -/
inductive Divided (p : Octets) (len : ℕ) (s t : Stand) (f g : Chain) : Prop
  | before (hu : g.unfrag=f.unfrag) (hn : g.nhOff=f.nhOff) (behind : ReflTransGen (Plain p len) s t)
  | here (r m : Stand) (hr : Path p len s r) (hm : Header p len r m) (hwhich : p r.at_=43 ∨ p r.at_=0)
      (hu : g.unfrag=m.off) (hn : g.nhOff=m.at_) (behind : ReflTransGen (Plain p len) m t)

section Walks

variable {p : Octets} {len fuel off hops : ℕ} {nh : BitVec 8} {c : Ip6.Chain} {f : Chain} {s t m : Stand}

/-- A turn of the fragmenter's walk that ends well is at the upper-layer header or steps over a header. -/
theorem fragWalkFrom_ok (hno : f.ok=false) (hok : (fragWalkFrom p len (fuel+1) off nh hops f).ok) :
    nhIsExt nh=false ∧ fragWalkFrom p len (fuel+1) off nh hops f={f with extEnd := off,ok := true} ∨
      nhIsExt nh ∧ nh≠44 ∧ ∃ d : Chain,d.ok=false ∧
        fragWalkFrom p len (fuel+1) off nh hops f=fragWalkFrom p len fuel (off+extLen (p.drop off)) (p off) ((hops+1)%2^16) d ∧
        ((nh=43 ∨ nh=0) ∧ d.unfrag=off+extLen (p.drop off) ∧ d.nhOff=off ∨ nh≠43 ∧ nh≠0 ∧ d=f) := by
  have hs : f.ok≠true := by
    rw [hno]
    exact nofun
  rw [fragWalkFrom] at hok ⊢
  split_ifs at hok ⊢ with he h44 hh hu hst hl
  · exact .inl ⟨by simpa using he,rfl⟩
  · exact (hs hok).elim
  · exact (hs hok).elim
  · exact (hs hok).elim
  · exact (hs hok).elim
  · exact .inr ⟨by simpa using he,h44,{f with unfrag := off+extLen (p.drop off),nhOff := off},hno,rfl,
      .inl ⟨hl.imp_right And.left,rfl,rfl⟩⟩
  · refine .inr ⟨by simpa using he,h44,f,hno,rfl,.inr ⟨fun h => hl (.inl h),fun h => hl (.inr ⟨h,?_⟩),rfl⟩⟩
    by_contra hne
    exact hh ⟨h,hne⟩

/-- The fragmenter's walk goes along the path of the general one where both end well. -/
theorem fragWalkFrom_path {u : Ip6.Chain} (hb : len<2^17) (hc : c.Stands p s) (hw : c.Walks p len u) (hno : f.ok=false)
    (hf : (fragWalkFrom p len fuel s.off (p s.at_) s.hops f).ok) :
    ∃ t,nhIsExt (p t.at_)=false ∧ (fragWalkFrom p len fuel s.off (p s.at_) s.hops f).extEnd=t.off ∧
      Divided p len s t f (fragWalkFrom p len fuel s.off (p s.at_) s.hops f) := by
  induction fuel generalizing c s f with
  | zero =>
    rw [fragWalkFrom,hno] at hf
    cases hf
  | succ fuel ih =>
    rcases fragWalkFrom_ok hno hf with ⟨he,heq⟩|⟨he,h44,d,hd,heq,hl⟩
    · rw [heq]
      exact ⟨s,he,rfl,.before rfl rfl .refl⟩
    cases hw with
    | arrives hx =>
      rw [hc.nextHdr,he] at hx
      cases hx
    | data hx =>
      rw [hc.nextHdr] at hx
      exact (h44 hx).elim
    | passes hp hw =>
      obtain ⟨r,hr,hst⟩ := hp.header hc hb
      have hs : s.step p=extLen (p.drop s.off) := if_neg h44
      have ho := hr.off
      have hft := hr.fits
      have hcn := hst.count
      have hh := hr.hops
      rw [hs] at ho
      rw [heq,show (s.hops+1)%2^16=r.hops by omega,←ho,←hr.at_] at hf ⊢
      obtain ⟨t,hup,hen,hdv⟩ := ih hst hw hd hf
      refine ⟨t,hup,hen,?_⟩
      cases hdv with
      | here r' m hr' hm hwh hu hn behind => exact .here r' m (.head hr hr') hm hwh hu hn behind
      | before hu hn behind =>
        rcases hl with ⟨hwh,hu',hn'⟩|⟨h43,h0,rfl⟩
        · exact .here s r .refl hr hwh (hu.trans (hu'.trans ho.symm)) (hn.trans (hn'.trans hr.at_.symm)) behind
        · exact .before hu hn (.head ⟨hr,h43,h0⟩ behind)

theorem fragWalk_perFragment (hb : len<2^17) (hok : (Ip6.walk p len).ok) (hf : (fragWalk p len).ok) :
    ∃ m t,PerFragment p len m t ∧ (fragWalk p len).unfrag=m.off ∧ (fragWalk p len).nhOff=m.at_ ∧ (fragWalk p len).extEnd=t.off := by
  have hc : Ip6.Chain.Stands p ⟨40,0,0,6,0,p 6,0,false,false,false,false⟩ .first := ⟨rfl,rfl,rfl,rfl,rfl,le_rfl⟩
  obtain ⟨t,hup,he,hd⟩ := fragWalkFrom_path hb hc (Ip6.walk_walks hok) rfl hf
  cases hd with
  | before hu hn behind => exact ⟨.first,t,⟨.refl,.inl rfl,behind,hup⟩,hu,hn,he⟩
  | here r m hr hm hw hu hn behind => exact ⟨m,t,⟨hr.tail hm,.inr ⟨r,hr,hm,hw⟩,behind,hup⟩,hu,hn,he⟩

end Walks

end IdemIp.Ip6Frag
