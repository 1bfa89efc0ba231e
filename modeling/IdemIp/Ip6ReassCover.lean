import IdemIp.Ip6ReassRuns
import IdemIp.Ip6Frag

/-!
# What the IPv6 reassembler holds, misses and puts together

The fragments of a row are pieces of its packet, in order and apart, and its holes
are just what they leave missing. A row stops gathering with a fragment that leaves
nothing missing. A completed row is put together as RFC 8200 section 4.5 says, and
its chain leads to the upper-layer header that was screened.
-/

namespace IdemIp.Ip6Reass

section Packets

open IndexChain Slots Gaps StepRun Function Datagram

/-- The packets that lie behind the fragment entries. -/
abbrev Memory := ℕ → Octets

/-- An octet of the Fragmentable Part, out of the first fragment that covers it. -/
def dataOctet (w : Work) (mem : Memory) (l : List ℕ) (x : ℕ) : BitVec 8 :=
  match l.find? fun i => decide ((w.frag i).offset≤x) && decide (x<(w.frag i).offset+(w.frag i).len) with
  | none => 0
  | some i => mem i ((w.frag i).hdrLen+(x-(w.frag i).offset))

/-- The packet of a row: the headers of its first fragment with Next Header and Payload Length set, and the
Fragmentable Part. -/
def assembled (cfg : Config) (w : Work) (mem : Memory) (d : ℕ) : Octets :=
  let head := (w.row d).fragHead
  let fh := (w.frag head).hdrLen-8
  fun i =>
    if fh ≤ i then dataOctet w mem (w.fragsOf cfg d) (i-fh)
    else if i=Ip6.nextAt (mem head) fh then (w.row d).nextHdr
    else if i=4 then BitVec.ofNat 8 (payloadLen w d/2^8)
    else if i=5 then BitVec.ofNat 8 (payloadLen w d)
    else mem head i

/-- Whether the chain of a packet leads to a Neighbor Discovery message. -/
def carriesNd (q : Octets) (len : ℕ) : Bool :=
  let c := Ip6.walk q len
  c.ok && c.nextHdr==58 && decide (c.offset<len) && decide (133≤q c.offset ∧ q c.offset≤137)

/-- What a fragment passed: its chain was walked, and a first one leads to no Neighbor Discovery message. -/
structure Screened (a : InputArgs) : Prop where
  len : a.len=40+Ip6.payloadLen a.pkt
  walk : (Ip6.walk a.pkt a.len).ok
  named : (Ip6.walk a.pkt a.len).fragHdr=a.fragHdr
  quiet : Ip6.fragOffsetBytes (a.pkt.drop a.fragHdr)=0 → (Ip6.walk a.pkt a.len).nextHdr=58 →
    (Ip6.walk a.pkt a.len).offset<a.len → ¬(133≤a.pkt (Ip6.walk a.pkt a.len).offset ∧ a.pkt (Ip6.walk a.pkt a.len).offset≤137)

/-- A first fragment that was screened, with the Next Header its row was given. -/
structure FirstOk (p : Octets) (fr : Frag) (nh : BitVec 8) : Prop where
  hdr : 48≤fr.hdrLen
  offset : fr.offset=0
  len : fr.hdrLen+fr.len=40+Ip6.payloadLen p
  walk : (Ip6.walk p (40+Ip6.payloadLen p)).ok
  named : (Ip6.walk p (40+Ip6.payloadLen p)).fragHdr=fr.hdrLen-8
  zero : Ip6.fragOffsetBytes (p.drop (fr.hdrLen-8))=0
  next : p (fr.hdrLen-8)=nh
  whole : (Ip6.walk p (40+Ip6.payloadLen p)).nextHdr=59 ∨ (Ip6.walk p (40+Ip6.payloadLen p)).offset<40+Ip6.payloadLen p
  quiet : (Ip6.walk p (40+Ip6.payloadLen p)).nextHdr=58 →
    ¬(133≤p (Ip6.walk p (40+Ip6.payloadLen p)).offset ∧ p (Ip6.walk p (40+Ip6.payloadLen p)).offset≤137)

theorem FirstOk.congr {p : Octets} {fr : Frag} {nh : BitVec 8} (h : FirstOk p fr nh) (desc next : ℕ) (used : Bool) :
    FirstOk p ⟨desc,fr.offset,fr.len,fr.hdrLen,next,used⟩ nh :=
  ⟨h.hdr,h.offset,h.len,h.walk,h.named,h.zero,h.next,h.whole,h.quiet⟩

section Assembled

variable {cfg : Config} {w : Work} {mem : Memory} {d i : ℕ} {t : List ℕ}

/-- The packet of a row is its first fragment without the Fragment header, as far as that fragment goes. -/
theorem FirstOk.unfragmented (hl : w.fragsOf cfg d=i::t) (hi : (w.row d).fragHead=i)
    (h : FirstOk (mem i) (w.frag i) (w.row d).nextHdr) :
    Ip6.Unfragmented (mem i) (40+Ip6.payloadLen (mem i)) ((w.frag i).hdrLen-8) (assembled cfg w mem d) := by
  have hpl : Ip6.payloadLen (mem i)<2^16 := BitVec.isLt _
  have hhdr := h.hdr
  have hlen := h.len
  have hat := Ip6.nextAt_lt (by omega) (by omega) h.walk h.named
  refine ⟨fun k hk h6 hne => ?_,?_,fun x hx => ?_⟩
  · unfold assembled
    simp only [hi]
    rw [if_neg (by omega),if_neg hne,if_neg (by omega),if_neg (by omega)]
  · unfold assembled
    simp only [hi]
    rw [if_neg (by omega),if_pos trivial,h.next]
  · unfold assembled dataOctet
    simp only [hi,hl]
    rw [if_pos (by omega),show (w.frag i).hdrLen-8+x-((w.frag i).hdrLen-8)=x by omega,List.find?_cons_of_pos]
    · simp only [h.offset]
      congr 1
      omega
    · simp only [h.offset,Bool.and_eq_true,decide_eq_true_eq]
      omega

theorem FirstOk.not_nd {len : ℕ} (hl : w.fragsOf cfg d=i::t) (hi : (w.row d).fragHead=i)
    (h : FirstOk (mem i) (w.frag i) (w.row d).nextHdr) (hln : len<2^17) : carriesNd (assembled cfg w mem d) len=false := by
  have hpl : Ip6.payloadLen (mem i)<2^16 := BitVec.isLt _
  have hhdr := h.hdr
  have hq := h.unfragmented hl hi
  by_contra hno
  have hnd : carriesNd (assembled cfg w mem d) len := by simpa using hno
  simp only [carriesNd,Bool.and_eq_true,beq_iff_eq,decide_eq_true_eq] at hnd
  obtain ⟨⟨⟨hok,h58⟩,-⟩,hnd⟩ := hnd
  obtain ⟨hn,hoff⟩ := Ip6.walk_unfragmented hq (by omega) (by omega) hln h.zero h.walk h.named hok
  rw [h58] at hn
  -- the upper-layer header lies in the first fragment
  have hin : (Ip6.walk (mem i) (40+Ip6.payloadLen (mem i))).offset<40+Ip6.payloadLen (mem i) := by
    rcases h.whole with h59|hlt
    · rw [←hn] at h59
      cases h59
    · exact hlt
  have hge := Ip6.walk_past h.walk
  rw [h.named] at hge
  have hr := hq.behind ((Ip6.walk (assembled cfg w mem d) len).offset-((w.frag i).hdrLen-8)) (by omega)
  rw [show (w.frag i).hdrLen-8+((Ip6.walk (assembled cfg w mem d) len).offset-((w.frag i).hdrLen-8))=
    (Ip6.walk (assembled cfg w mem d) len).offset by omega,
    show (w.frag i).hdrLen-8+8+((Ip6.walk (assembled cfg w mem d) len).offset-((w.frag i).hdrLen-8))=
      (Ip6.walk (mem i) (40+Ip6.payloadLen (mem i))).offset by omega] at hr
  rw [hr] at hnd
  exact h.quiet hn.symm hnd

end Assembled

/-- The memory after a call: a fresh entry holds the fragment's packet. -/
def filedIn (w u : Work) (p : Octets) (mem : Memory) : Memory := fun i =>
  if !(w.frag i).used && (u.frag i).used then p else mem i

/-- Every row that has its first fragment has a screened one at its head. -/
def Firsts (cfg : Config) (w : Work) (mem : Memory) (fs : ℕ → List ℕ) : Prop :=
  ∀ d < cfg.ip6ReassDatagrams,(w.row d).used → (w.row d).firstSeen → ∀ i t,fs d=i::t →
    FirstOk (mem i) (w.frag i) (w.row d).nextHdr

section Firsts

variable {cfg : Config} {w u : Work} {mem : Memory} {fs hs : ℕ → List ℕ} {a : InputArgs} {f : Fields} {d fi : ℕ}
  {r : Datagram} {gs : List Gap} {l m : List ℕ}

theorem Firsts.alike (h : Ok cfg w fs hs) (hf : Firsts cfg w mem fs) (ha : Alike w u) : Firsts cfg u mem fs := by
  intro d hd hu hfr i t hit
  rw [ha.keeps used fun _ _ => rfl] at hu
  rw [ha.keeps firstSeen fun _ _ => rfl] at hfr
  rw [ha.keeps nextHdr fun _ _ => rfl,
    ha.frag i (h.frags.kept.used_of_mem hd (show i∈fs d by rw [hit]; exact List.mem_cons_self)).2]
  exact hf d hd hu hfr i t hit

theorem Screened.firstOk (hs : Screened a) (hf : fields a=some f) (hb : f.bad a=false) (h0 : f.offset=0) (n : ℕ) :
    FirstOk a.pkt ⟨a.desc,f.offset,f.fragLen,f.hdrLen,n,true⟩ f.nextHdr := by
  have hsh : chainShort a=false := by
    simp only [Fields.bad,h0,decide_true,Bool.true_and,Bool.or_eq_false_iff] at hb
    exact hb.2
  have hw := hs.walk
  have hn := hs.named
  have hq := hs.quiet
  rw [hs.len] at hw hn hq
  unfold chainShort at hsh
  simp only [Nat.add_comm (Ip6.payloadLen a.pkt) 40,hw,Bool.not_true,Bool.false_or] at hsh
  have hwh : (Ip6.walk a.pkt (40+Ip6.payloadLen a.pkt)).nextHdr=59 ∨
      (Ip6.walk a.pkt (40+Ip6.payloadLen a.pkt)).offset<40+Ip6.payloadLen a.pkt := by
    rcases Bool.and_eq_false_iff.1 hsh with h59|hlt
    · exact .inl (by simpa using h59)
    · exact .inr (by simpa using hlt)
  unfold fields at hf
  dsimp only at hf
  split_ifs at hf with h1 h2 h3
  cases hf
  refine ⟨?_,h0,?_,hw,?_,?_,rfl,hwh,fun h58 => ?_⟩
  · dsimp only
    omega
  · dsimp only
    omega
  · rw [hn]
    rfl
  · exact h0
  · have hlt : (Ip6.walk a.pkt (40+Ip6.payloadLen a.pkt)).offset<40+Ip6.payloadLen a.pkt := by
      rcases hwh with h59|hlt
      · rw [h58] at h59
        cases h59
      · exact hlt
    exact hq h0 h58 hlt

theorem Firsts.filed (h : Ok cfg w fs hs) (hfi : Firsts cfg w mem fs) (ha : Screened a) (hfl : fields a=some f)
    (hb : f.bad a=false) (hg : Goes cfg w a f hs d r gs) (hf : Filed cfg w u a f fs hs d fi r gs l m) :
    Firsts cfg u (filedIn w u a.pkt mem) (update fs d l) := by
  -- the head of a row stays what it was, entry and packet
  have ho : ∀ k < cfg.ip6ReassDatagrams,∀ i∈fs k,∀ nh,FirstOk (mem i) (w.frag i) nh →
      FirstOk (filedIn w u a.pkt mem i) (u.frag i) nh := by
    intro k hk i hi nh hok
    have hus := (h.frags.kept.used_of_mem hk hi).2
    obtain ⟨n,hn⟩ := hf.linked hus
    have hm : filedIn w u a.pkt mem i=mem i := by
      unfold filedIn
      rw [if_neg (by simp [hus])]
    rw [hm,hn]
    exact hok.congr _ _ _
  intro k hk hu hfr i t hit
  by_cases hkd : k=d
  · subst hkd
    rw [update_self] at hit
    obtain ⟨fh,hh,st,total,hr⟩ := hf.row
    have hsn : (decide (f.offset=0) || r.firstSeen) := by
      rw [hr,learned_eq] at hfr
      exact hfr
    have hnx : (u.row k).nextHdr=if f.offset=0 then f.nextHdr else r.nextHdr := by
      rw [hr,learned_eq]
    rw [hnx]
    by_cases h0 : f.offset=0
    · rw [hf.first h0] at hit
      cases hit
      obtain ⟨n,hn⟩ := hf.entry
      have hm : filedIn w u a.pkt mem fi=a.pkt := by
        unfold filedIn
        rw [if_pos (by rw [hf.free,hn]; rfl)]
      rw [if_pos h0,hm,hn]
      exact ha.firstOk hfl hb h0 n
    rw [if_neg h0]
    have hseen' : r.firstSeen := by simpa [h0] using hsn
    obtain ⟨i',t',hit',hof⟩ := hf.base.head hseen'
    obtain ⟨t'',hl⟩ := hf.rest h0 i' t' hit' hof
    rw [hl] at hit
    cases hit
    cases hg with
    | joins hu' hj => exact ho k hk i (by rw [hit']; exact List.mem_cons_self) _ (hfi k hk hu' hseen' i t' hit')
    | opens j hfree hj => cases hseen'
  · rw [update_of_ne hkd] at hit
    rw [hf.rows k hkd] at hu hfr ⊢
    exact ho k hk i (by rw [hit]; exact List.mem_cons_self) _ (hfi k hk hu hfr i t hit)

theorem Firsts.drop (hfr : Firsts cfg w mem fs) (d : ℕ) : Firsts cfg (putDatagram cfg w d) mem (update fs d []) := by
  intro k hk hu hf i t hit
  by_cases hkd : k=d
  · rw [hkd,update_self] at hit
    cases hit
  have hr : (putDatagram cfg w d).row k=w.row k := update_of_ne hkd _ _
  rw [update_of_ne hkd] at hit
  rw [hr] at hu hf ⊢
  have hb := hfr k hk hu hf i t hit
  unfold putDatagram
  dsimp only
  split_ifs
  · exact hb.congr _ _ _
  · exact hb

end Firsts

section Sound

variable {cfg : Config} {w : Work} {mem : Memory}

/-- The tables are in order and their first fragments screened. -/
def Sound (cfg : Config) (w : Work) (mem : Memory) : Prop := ∃ fs hs,Ok cfg w fs hs ∧ Firsts cfg w mem fs

theorem sound_clear {cfg : Config} {w : Work} {mem : Memory} : Sound cfg (clear w) mem :=
  ⟨_,_,ok_clear w,nofun⟩

theorem Sound.alike {u : Work} (h : Sound cfg w mem) (ha : Alike w u) : Sound cfg u mem := by
  obtain ⟨fs,hs,hok,hf⟩ := h
  exact ⟨fs,hs,hok.alike ha,hf.alike hok ha⟩

theorem Sound.dropped (h : Sound cfg w mem) (d : ℕ) : Sound cfg (drop cfg w d) mem := by
  have hst : Sound cfg (w.status .err) mem := h.alike (.of_eq rfl rfl rfl ⟨rfl,rfl⟩)
  rcases drop_cases cfg w d with ⟨-,he⟩|⟨⟨-,hd,hu⟩,he⟩
  · rw [he]
    exact hst
  obtain ⟨fs,hs,hok,hf⟩ := hst
  have hp : Sound cfg (putDatagram cfg (w.status .err) d) mem := ⟨_,_,putDatagram_ok hok hd hu,hf.drop d⟩
  rw [he]
  exact hp.alike (.of_eq rfl rfl rfl ⟨rfl,rfl⟩)

theorem filedIn_alike {u : Work} (ha : Alike w u) {p : Octets} {mem : Memory} : filedIn w u p mem=mem := by
  funext i
  unfold filedIn
  rw [ha.used i]
  cases (w.frag i).used <;> rfl

theorem Filed.not_nd {u : Work} {a : InputArgs} {f : Fields} {fs hs : ℕ → List ℕ} {d fi : ℕ} {r : Datagram} {gs : List Gap}
    {l m : List ℕ} (hf : Filed cfg w u a f fs hs d fi r gs l m) (hok : Ok cfg u (update fs d l) (update hs d m))
    (hfi : Firsts cfg u mem (update fs d l)) (hu : r.used) (hno : w.io.complete=false)
    (hd : u.io.complete) : carriesNd (assembled cfg u mem u.io.datagram) (40+u.io.totalLen)=false := by
  have hm : m=[] := by
    by_contra hm
    rw [(hf.pending hm).2,hno] at hd
    cases hd
  have hft : payloadLen u d≤65535 := by
    by_contra hlong
    rw [(hf.tooLong hm (by omega)).2,hno] at hd
    cases hd
  have hus := hf.used hu
  have hfr : (u.row d).firstSeen := by
    obtain ⟨fh,hh,st,total,hrw⟩ := hf.row
    rw [hrw,learned_eq]
    rcases hf.seen hm with h0|hr
    · simp [h0]
    · simp [hr]
  obtain ⟨i,t,hit,-⟩ := (hok.rows d hf.row_lt hus).head hfr
  have hl : u.fragsOf cfg d=update fs d l d := hok.frags.walk frags_le_none hf.row_lt hus
  have hc := hok.frags.chain d hf.row_lt hus
  rw [hit] at hl hc
  rw [hf.datagram,(hf.done hm hft).2.2]
  exact (hfi d hf.row_lt hus hfr i t hit).not_nd hl hc.1 (by omega)

/-- A screened fragment keeps it so, and a packet it completes leads to no Neighbor Discovery message. -/
theorem Sound.taken (h : Sound cfg w mem) {a : InputArgs} (ha : Screened a) :
    Sound cfg (input cfg w a) (filedIn w (input cfg w a) a.pkt mem) ∧ ((input cfg w a).io.complete →
        carriesNd (assembled cfg (input cfg w a) (filedIn w (input cfg w a) a.pkt mem) (input cfg w a).io.datagram)
          (40+(input cfg w a).io.totalLen)=false) := by
  have hstart : Sound cfg {w.started with nowMs := a.nowMs} mem := h.alike (.of_eq rfl rfl rfl ⟨rfl,rfl⟩)
  obtain ⟨fs,hs,hok,hfr⟩ := hstart
  have hb : Ok cfg w fs hs := hok.alike (.of_eq rfl rfl rfl ⟨rfl,rfl⟩)
  rcases input_outcome hb with he|ho
  · have hal : Alike w w.started := .of_eq rfl rfl rfl ⟨rfl,rfl⟩
    rw [he,filedIn_alike hal]
    exact ⟨h.alike hal,nofun⟩
  have hsm : filedIn w (input cfg w a) a.pkt mem=filedIn {w.started with nowMs := a.nowMs} (input cfg w a) a.pkt mem := rfl
  rw [hsm]
  generalize input cfg w a=u at ho
  cases ho with
  | unfiled _ hal hst hc hj =>
    rw [filedIn_alike hal]
    refine ⟨Sound.alike ⟨fs,hs,hok,hfr⟩ hal,fun hd => ?_⟩
    rw [hc] at hd
    cases hd
  | filed f d fi r gs l m _ hf hbd hg hfl =>
    have haf := hfl.ok hok
    have hfirsts' := hfr.filed hok ha hf hbd hg hfl
    have hu : r.used := by
      cases hg with
      | joins hu hj => exact hu
      | opens j hfree hj => rfl
    exact ⟨⟨_,_,haf,hfirsts'⟩,fun hd => hfl.not_nd haf hfirsts' hu rfl hd⟩

end Sound

end Packets

section Covers

open IndexChain Slots Gaps StepRun Pieces List Function Datagram

/-- The tables with the packets that lie behind their entries. -/
structure Store where
  work : Work
  mem : Memory

variable (cfg : Config)

/-- Make one call; a fresh entry holds the packet it was filled from. -/
def Store.step (s : Store) : Call → Store
  | .input a => ⟨input cfg s.work a,filedIn s.work (input cfg s.work a) a.pkt s.mem⟩
  | c => ⟨Ip6Reass.step cfg s.work c,s.mem⟩

/-- A held fragment; whether more follow stands in the Fragment header of its packet. -/
def Store.piece (s : Store) (i : ℕ) : Piece :=
  ⟨(s.work.frag i).offset,(s.work.frag i).len,Ip6.fragMore ((s.mem i).drop ((s.work.frag i).hdrLen-8))⟩

/-- The fragments of a row in list order. -/
def Store.pieces (s : Store) (d : ℕ) : List Piece := (s.work.fragsOf cfg d).map s.piece

/-- The holes of a row in list order. -/
def Store.missing (s : Store) (d : ℕ) : List Gap := s.work.gaps (s.work.holesOf cfg d)

/-- What a row knows of its packet agrees with the pieces it holds. -/
structure Known (r : Datagram) (ps : List Piece) (gs : List Gap) : Prop where
  /-- The gaps are what the pieces leave missing. -/
  tiled : Tiled 65535 ps gs
  /-- The row knows whether the last fragment came. -/
  last : r.lastSeen ↔ ∃ p∈ps,p.more=false
  ends : r.lastSeen → r.fragEnd=bound 65535 ps

/-- A row with its pieces, its gaps and the length its packet would have. -/
structure Gathers (r : Datagram) (ps : List Piece) (gs : List Gap) (total : ℕ) : Prop extends Known r ps gs where
  count : r.fragCount=ps.length
  holding : r.state=.holding → ¬Whole 65535 ps
  /-- A complete one does not, and its packet is not too long. -/
  complete : r.state=.complete → Whole 65535 ps ∧ r.totalLen=total ∧ total≤65535

/-- The tables are in order and every row in use agrees with its pieces. -/
structure Covers (s : Store) (fs hs : ℕ → List ℕ) : Prop where
  ok : Ok cfg s.work fs hs
  rows : ∀ d < cfg.ip6ReassDatagrams,(s.work.row d).used →
    Gathers (s.work.row d) ((fs d).map s.piece) (s.work.gaps (hs d)) (payloadLen s.work d)

/-- A fragment as a piece. -/
def Fields.piece (f : Fields) : Piece := ⟨f.offset,f.fragLen,f.more⟩

variable {cfg}

section Filing

variable {w : Work} {r : Datagram} {f : Fields} {fl pre post : List ℕ} {piece : ℕ → Piece} {gs : List Gap}

theorem Known.agrees (h : Known r (fl.map piece) gs) (hp : Passed w r f fl)
    (hpc : ∀ i∈fl,(piece i).first=(w.frag i).offset ∧ (piece i).len=(w.frag i).len) :
    Agrees 65535 (fl.map piece) f.piece := by
  have hst : ∀ i∈fl,(piece i).stop=(w.frag i).offset+(w.frag i).len := by
    intro i hi
    rw [Piece.stop,(hpc i hi).1,(hpc i hi).2]
  have hf : f.piece.stop≤65535 := hp.fits
  refine ⟨fun q hq x hx => ?_,hf,?_,fun hm => ⟨fun q hq => ?_,fun hex => ?_⟩⟩
  · obtain ⟨i,hi,rfl⟩ := mem_map.1 hq
    obtain ⟨⟨h1,h2⟩,h3,h4⟩ := hx
    rw [(hpc i hi).1] at h3
    rw [hst i hi] at h4
    have hlow : f.offset≤x := h1
    have hhigh : x<f.fragEnd := h2
    exact hp.clear i hi ⟨by omega,by omega⟩
  · cases hl : r.lastSeen with
    | true =>
      rw [←h.ends hl]
      cases hm : f.more with
      | true => exact hp.within hm hl
      | false => exact (hp.same hm hl).ge
    | false =>
      have hmr : ∀ p∈fl.map piece,p.more := by
        intro p hp
        by_contra hno
        have hsn := h.last.2 ⟨p,hp,by simpa using hno⟩
        rw [hl] at hsn
        cases hsn
      rw [bound_of_more hmr]
      omega
  · obtain ⟨i,hi,rfl⟩ := mem_map.1 hq
    rw [hst i hi]
    exact hp.past hm i hi
  · have hl := h.last.2 hex
    rw [←h.ends hl]
    exact (hp.same hm hl).symm

theorem Known.before (h : Known r (fl.map piece) gs) (hsp : fl=pre++post)
    (hp : ∀ i∈fl,(piece i).first=(w.frag i).offset) (hpr : ∀ i∈pre.getLast?,(w.frag i).offset<f.offset) :
    ∀ q∈pre.map piece,q.first≤f.piece.first := by
  rcases eq_nil_or_concat' pre with rfl|⟨front,x,rfl⟩
  · exact nofun
  have hx : (w.frag x).offset<f.offset := hpr x (by rw [getLast?_concat]; rfl)
  have hxp := hp x (by rw [hsp]; simp)
  have hfirst : f.piece.first=f.offset := rfl
  have ho := h.tiled.order
  rw [hsp,map_append,map_append] at ho
  have hf := (pairwise_append.1 (pairwise_append.1 ho).1).2.2
  intro q hq
  rw [map_append,mem_append] at hq
  rcases hq with hq|hq
  · have hle := hf q hq (piece x) (by simp)
    omega
  rw [map_singleton,mem_singleton] at hq
  rw [hq]
  omega

theorem Known.filed (h : Known r (fl.map piece) gs) (hp : Passed w r f fl) (hsp : fl=pre++post)
    (hpc : ∀ i∈fl,(piece i).first=(w.frag i).offset ∧ (piece i).len=(w.frag i).len)
    (hpr : ∀ i∈pre.getLast?,(w.frag i).offset<f.offset) (hps : ∀ i∈post,f.offset≤(w.frag i).offset) :
    Known (r.learned f) (pre.map piece++f.piece::post.map piece) (take f.offset f.fragEnd f.more gs) := by
  have hbf := h.before hsp (fun i hi => (hpc i hi).1) hpr
  have ha := h.agrees hp hpc
  have hmp : fl.map piece=pre.map piece++post.map piece := by rw [hsp,map_append]
  have hls := h.last
  have he := h.ends
  have ht := h.tiled
  rw [hmp] at ha ht hls he
  have haf : ∀ q∈post.map piece,f.piece.first≤q.first := by
    intro q hq
    obtain ⟨i,hi,rfl⟩ := mem_map.1 hq
    rw [(hpc i (by rw [hsp]; exact mem_append_right _ hi)).1]
    exact hps i hi
  have hb := ht.bound_insert ha
  refine ⟨ht.file ha hbf haf,?_,fun hl => ?_⟩
  · rw [learned_eq,Bool.or_eq_true,hls,Bool.not_eq_true']
    constructor
    · rintro (hm | ⟨q,hq,hqm⟩)
      · exact ⟨f.piece,mem_append_right _ mem_cons_self,hm⟩
      · refine ⟨q,?_,hqm⟩
        rcases mem_append.1 hq with hq|hq
        · exact mem_append_left _ hq
        · exact mem_append_right _ (mem_cons_of_mem _ hq)
    · rintro ⟨q,hq,hqm⟩
      rcases mem_append.1 hq with hq|hq
      · exact .inr ⟨q,mem_append_left _ hq,hqm⟩
      rcases mem_cons.1 hq with rfl|hq
      · exact .inl hqm
      · exact .inr ⟨q,mem_append_right _ hq,hqm⟩
  · rw [learned_eq] at hl
    rw [hb,learned_eq]
    have hmr : f.piece.more=f.more := rfl
    rw [hmr]
    cases hm : f.more with
    | true =>
      rw [hm,Bool.not_true,Bool.false_or] at hl
      exact he hl
    | false => rfl

end Filing

variable {ps : List Piece} {total k : ℕ}

section Steps

variable {s t : Store} {w u : Work} {mem : Memory} {fs hs : ℕ → List ℕ}

/-- Every way a call changes the tables. -/
inductive Change (cfg : Config) (s : Store) (fs hs : ℕ → List ℕ) : Store → Prop
  /-- States of rows, free entries and the report. -/
  | alike (u : Work) (ha : Alike s.work u) : Change cfg s fs hs ⟨u,s.mem⟩
  | filed (a : InputArgs) (f : Fields) (d fi : ℕ) (r : Datagram) (gs : List Gap) (l m : List ℕ) (u : Work)
    (hf : fields a=some f) (hg : Goes cfg {s.work.started with nowMs := a.nowMs} a f hs d r gs)
    (h : Filed cfg {s.work.started with nowMs := a.nowMs} u a f fs hs d fi r gs l m) :
    Change cfg s fs hs ⟨u,filedIn s.work u a.pkt s.mem⟩
  | dropped (d : ℕ) (hd : d < cfg.ip6ReassDatagrams) (hu : (s.work.row d).used) :
    Change cfg s fs hs ⟨(putDatagram cfg (s.work.status .err) d).status .ok,s.mem⟩

theorem Store.step_change (h : Ok cfg s.work fs hs) (c : Call) : Change cfg s fs hs (s.step cfg c) := by
  cases c with
  | fragAt d index => exact .alike _ (fragAt_alike)
  | tick now => exact .alike _ (tick_alike)
  | drop d =>
    show Change cfg s fs hs ⟨drop cfg s.work d,s.mem⟩
    rcases drop_cases cfg s.work d with ⟨-,he⟩|⟨⟨-,hd,hu⟩,he⟩
    · rw [he]
      exact .alike _ (.of_eq rfl rfl rfl ⟨rfl,rfl⟩)
    · rw [he]
      exact .dropped d hd hu
  | input a =>
    show Change cfg s fs hs ⟨input cfg s.work a,filedIn s.work (input cfg s.work a) a.pkt s.mem⟩
    rcases input_outcome h with he|ho
    · have hal : Alike s.work s.work.started := .of_eq rfl rfl rfl ⟨rfl,rfl⟩
      rw [he,filedIn_alike hal]
      exact .alike _ hal
    generalize input cfg s.work a=u at ho
    cases ho with
    | unfiled _ hal hst hc hj =>
      have ha : Alike s.work u := ⟨hal.row,hal.used,hal.frag,hal.hole,hal.counts,hal.state⟩
      rw [filedIn_alike ha]
      exact .alike u ha
    | filed f d fi r gs l m _ hf hbad hg hfl => exact .filed a f d fi r gs l m u hf hg hfl

theorem head_mem (h : Ok cfg w fs hs) {d : ℕ} (hd : d < cfg.ip6ReassDatagrams) (hu : (w.row d).used) (hne : fs d≠[]) :
    (w.row d).fragHead∈fs d := by
  have hc := h.frags.chain d hd hu
  cases hl : fs d with
  | nil => exact absurd hl hne
  | cons i t =>
    rw [hl] at hc
    rw [hc.1]
    exact mem_cons_self

theorem Gathers.congr {r r' : Datagram} {gs : List Gap} {total' : ℕ} (h : Gathers r ps gs total)
    (hst : ∃ st,r'={r with state := st} ∧ (st=r.state ∨ st=.expired ∨ st=.abandoned)) (ht : ps≠[] → total'=total) :
    Gathers r' ps gs total' := by
  obtain ⟨st,rfl,hc⟩ := hst
  refine ⟨⟨h.tiled,h.last,h.ends⟩,h.count,fun hs => ?_,fun hs => ?_⟩
  · rcases hc with rfl|rfl|rfl
    · exact h.holding hs
    · cases hs
    · cases hs
  · rcases hc with rfl|rfl|rfl
    · obtain ⟨hw,hl,hle⟩ := h.complete hs
      have hne : ps≠[] := by
        rintro rfl
        obtain ⟨⟨p,hp,-⟩,-⟩ := hw
        cases hp
      rw [ht hne]
      exact ⟨hw,hl,hle⟩
    · cases hs
    · cases hs

theorem Alike.map_piece (h : Ok cfg s.work fs hs) (ha : Alike s.work u) {d : ℕ} (hd : d < cfg.ip6ReassDatagrams) :
    (fs d).map (Store.piece ⟨u,s.mem⟩)=(fs d).map s.piece := by
  refine map_congr_left fun i hi => ?_
  unfold Store.piece
  rw [ha.frag i (h.frags.kept.used_of_mem hd hi).2]

theorem Covers.alike (h : Covers cfg s fs hs) (ha : Alike s.work u) : Covers cfg ⟨u,s.mem⟩ fs hs := by
  refine ⟨h.ok.alike ha,fun d hd hu => ?_⟩
  have hu' : (s.work.row d).used := by rwa [←ha.keeps used (fun _ _ => rfl) d]
  have hf : ∀ i∈fs d,u.frag i=s.work.frag i := fun i hi => ha.frag i (h.ok.frags.kept.used_of_mem hd hi).2
  have hm := ha.map_piece h.ok hd
  have hg : u.gaps (hs d)=s.work.gaps (hs d) := by
    unfold Work.gaps Work.gap
    rw [ha.hole]
  rw [hm,hg]
  refine (h.rows d hd hu').congr ?_ fun hne => ?_
  · obtain ⟨st,hst⟩ := ha.row d
    refine ⟨st,hst,?_⟩
    have hc := ha.state d
    rw [hst] at hc
    exact hc
  · have hmm := head_mem h.ok hd hu' fun he => hne (by rw [he]; rfl)
    unfold payloadLen
    rw [ha.keeps fragHead (fun _ _ => rfl) d,ha.keeps fragEnd (fun _ _ => rfl) d,hf _ hmm]

variable {a : InputArgs} {f : Fields} {d fi : ℕ} {r : Datagram} {gs : List Gap} {l m : List ℕ}

theorem fields_more (h : fields a=some f) : f.more=Ip6.fragMore (a.pkt.drop (f.hdrLen-8)) := by
  unfold fields at h
  dsimp only at h
  split_ifs at h
  cases h
  rfl

variable (h : Covers cfg ⟨w,mem⟩ fs hs)
include h

theorem Covers.goes (hd : d < cfg.ip6ReassDatagrams) (hg : Goes cfg w a f hs d r gs) :
    Known r ((fs d).map (Store.piece ⟨w,mem⟩)) gs := by
  cases hg with
  | joins hu hj => exact (h.rows d hd hu).toKnown
  | opens j hf hj =>
    rw [h.ok.frags.free d hd hf]
    exact ⟨Tiled.empty 65535,⟨nofun,fun ⟨p,hp,_⟩ => by cases hp⟩,nofun⟩

omit h in
theorem Filed.piece_old (h : Ok cfg w fs hs) (hf : Filed cfg w u a f fs hs d fi r gs l m)
    (hk : k < cfg.ip6ReassDatagrams) {i : ℕ} (hi : i∈fs k) :
    Store.piece ⟨u,filedIn w u a.pkt mem⟩ i=Store.piece ⟨w,mem⟩ i := by
  have hu := (h.frags.kept.used_of_mem hk hi).2
  obtain ⟨n,hn⟩ := hf.linked hu
  have hm : filedIn w u a.pkt mem i=mem i := by
    unfold filedIn
    rw [if_neg (by simp [hu])]
  unfold Store.piece
  dsimp only
  rw [hm,hn]

omit h in
theorem Filed.piece_new (hfl : fields a=some f) (hf : Filed cfg w u a f fs hs d fi r gs l m) :
    Store.piece ⟨u,filedIn w u a.pkt mem⟩ fi=f.piece := by
  obtain ⟨n,hn⟩ := hf.entry
  have hm : filedIn w u a.pkt mem fi=a.pkt := by
    unfold filedIn
    rw [if_pos (by rw [hf.free,hn]; rfl)]
  unfold Store.piece Fields.piece
  dsimp only
  rw [hm,hn,fields_more hfl]

theorem Covers.filed_known (hfl : fields a=some f) (hg : Goes cfg w a f hs d r gs)
    (hf : Filed cfg w u a f fs hs d fi r gs l m) :
    Known (u.row d) (l.map (Store.piece ⟨u,filedIn w u a.pkt mem⟩)) (u.gaps m) := by
  obtain ⟨pre,post,hsp,hl,hpr,hp⟩ := hf.place
  have ho : ∀ i∈fs d,Store.piece ⟨u,filedIn w u a.pkt mem⟩ i=Store.piece ⟨w,mem⟩ i := fun i hi =>
    hf.piece_old h.ok hf.row_lt hi
  have hm : l.map (Store.piece ⟨u,filedIn w u a.pkt mem⟩)=
      pre.map (Store.piece ⟨w,mem⟩)++f.piece::post.map (Store.piece ⟨w,mem⟩) := by
    rw [hl,map_append,map_cons,hf.piece_new hfl]
    congr 1
    · exact map_congr_left fun i hi => ho i (by rw [hsp]; exact mem_append_left _ hi)
    · congr 1
      exact map_congr_left fun i hi => ho i (by rw [hsp]; exact mem_append_right _ hi)
  have hk := (h.goes hf.row_lt hg).filed hf.passed hsp (fun i _ => ⟨rfl,rfl⟩) hpr hp
  obtain ⟨fh,hh,st,total,hr⟩ := hf.row
  rw [hm,hf.gaps,hr]
  exact ⟨hk.tiled,hk.last,hk.ends⟩

omit h in
theorem Known.nil_iff (hk : Known r ps (u.gaps m)) : m=[] ↔ Whole 65535 ps := by
  rw [←hk.tiled.nil_iff]
  unfold Work.gaps
  rw [map_eq_nil_iff]

theorem Filed.gathers (hfl : fields a=some f) (hg : Goes cfg w a f hs d r gs) (hf : Filed cfg w u a f fs hs d fi r gs l m) :
    Gathers (u.row d) (l.map (Store.piece ⟨u,filedIn w u a.pkt mem⟩)) (u.gaps m) (payloadLen u d) := by
  have hk := h.filed_known hfl hg hf
  have hi := hk.nil_iff
  have hc : (u.row d).fragCount=(l.map (Store.piece ⟨u,filedIn w u a.pkt mem⟩)).length := by
    obtain ⟨fh,hh,st,total,hr⟩ := hf.row
    rw [hr,length_map,hf.perm.length_eq]
    rw [learned_eq]
    exact congrArg (·+1) hf.base.count
  refine ⟨hk,hc,fun hst hw => ?_,fun hst => ?_⟩
  · have hm := hi.2 hw
    by_cases hl : 65535<payloadLen u d
    · rw [hf.givenUp hm hl] at hst
      cases hst
    · rw [(hf.completed hm (by omega)).1] at hst
      cases hst
  · by_cases hm : m=[]
    · by_cases hl : 65535<payloadLen u d
      · rw [hf.givenUp hm hl] at hst
        cases hst
      · exact ⟨hi.1 hm,(hf.completed hm (by omega)).2,by omega⟩
    · rw [hf.goesOn hm] at hst
      cases hst

theorem Filed.gathers_other (hf : Filed cfg w u a f fs hs d fi r gs l m)
    (hk : k < cfg.ip6ReassDatagrams) (hkd : k≠d) (hu : (w.row k).used) :
    Gathers (u.row k) ((fs k).map (Store.piece ⟨u,filedIn w u a.pkt mem⟩)) (u.gaps (hs k)) (payloadLen u k) := by
  have hm : (fs k).map (Store.piece ⟨u,filedIn w u a.pkt mem⟩)=(fs k).map (Store.piece ⟨w,mem⟩) :=
    map_congr_left fun i hi => hf.piece_old h.ok hk hi
  have hg : u.gaps (hs k)=w.gaps (hs k) := by
    refine map_congr_left fun i hi => ?_
    unfold Work.gap
    rw [hf.other i (fun hid => hkd (h.ok.holes.kept.row_unique hk hf.row_lt hi hid)) (h.ok.holes.kept.used_of_mem hk hi).2]
  rw [hm,hg]
  have hb : Gathers (w.row k) ((fs k).map (Store.piece ⟨w,mem⟩)) (w.gaps (hs k)) (payloadLen w k) := h.rows k hk hu
  refine hb.congr ⟨(w.row k).state,hf.rows k hkd,.inl rfl⟩ fun hne => ?_
  have hmm := head_mem h.ok hk hu fun he => hne (by rw [he]; rfl)
  have hus := (h.ok.frags.kept.used_of_mem hk hmm).2
  obtain ⟨n,hn⟩ := hf.others (w.row k).fragHead fun he => by
    have hfr := hf.free
    rw [←he] at hfr
    rw [hfr] at hus
    cases hus
  unfold payloadLen
  rw [hf.rows k hkd,hn]

theorem Covers.filed (hfl : fields a=some f) (hg : Goes cfg w a f hs d r gs) (hf : Filed cfg w u a f fs hs d fi r gs l m) :
    Covers cfg ⟨u,filedIn w u a.pkt mem⟩ (update fs d l) (update hs d m) := by
  refine ⟨hf.ok h.ok,fun k hk hu => ?_⟩
  by_cases hkd : k=d
  · subst hkd
    rw [update_self,update_self]
    exact Filed.gathers h hfl hg hf
  rw [update_of_ne hkd,update_of_ne hkd]
  have hu' : (w.row k).used := by
    rw [←hf.rows k hkd]
    exact hu
  exact hf.gathers_other h hk hkd hu'

omit h

theorem putDatagram_frag {cfg : Config} {w : Work} {d i : ℕ} : ∃ b,(putDatagram cfg w d).frag i={w.frag i with used := b} := by
  unfold putDatagram
  dsimp only
  split_ifs
  · exact ⟨false,rfl⟩
  · exact ⟨(w.frag i).used,rfl⟩

theorem putDatagram_piece {w : Work} {d : ℕ} : Store.piece ⟨putDatagram cfg w d,mem⟩=Store.piece ⟨w,mem⟩ := by
  funext i
  obtain ⟨b,hb⟩ := putDatagram_frag
  unfold Store.piece
  rw [hb]

theorem Covers.dropped (h : Covers cfg s fs hs) (hd : d < cfg.ip6ReassDatagrams) (hu : (s.work.row d).used) :
    Covers cfg ⟨putDatagram cfg s.work d,s.mem⟩ (update fs d []) (update hs d []) := by
  refine ⟨putDatagram_ok h.ok hd hu,fun k hk huk => ?_⟩
  have hkd : k≠d := by
    rintro rfl
    have hg : (putDatagram cfg s.work k).row k=.zero := update_self _ _ _
    have huk' : ((putDatagram cfg s.work k).row k).used := huk
    rw [hg] at huk'
    cases huk'
  have hr : (putDatagram cfg s.work d).row k=s.work.row k := update_of_ne hkd _ _
  have hp : Store.piece ⟨putDatagram cfg s.work d,s.mem⟩=s.piece := putDatagram_piece
  have hgp : (putDatagram cfg s.work d).gaps (hs k)=s.work.gaps (hs k) := by
    refine map_congr_left fun i _ => ?_
    unfold Work.gap putDatagram
    dsimp only
    split_ifs <;> rfl
  have hpy : payloadLen (putDatagram cfg s.work d) k=payloadLen s.work k := by
    obtain ⟨b,hb⟩ := putDatagram_frag
    unfold payloadLen
    rw [hr,hb]
  have huk' : (s.work.row k).used := by
    rw [←hr]
    exact huk
  rw [update_of_ne hkd,update_of_ne hkd,hp,hgp,hpy,hr]
  exact h.rows k hk huk'

theorem Covers.change (h : Covers cfg s fs hs) (hc : Change cfg s fs hs t) : ∃ fs' hs',Covers cfg t fs' hs' := by
  cases hc with
  | alike u ha => exact ⟨fs,hs,h.alike ha⟩
  | filed a f d fi r gs l m u hf hg hfl =>
    have hst : Covers cfg ⟨{s.work.started with nowMs := a.nowMs},s.mem⟩ fs hs := h.alike (.of_eq rfl rfl rfl ⟨rfl,rfl⟩)
    exact ⟨_,_,hst.filed hf hg hfl⟩
  | dropped d hd hu =>
    have hst : Covers cfg ⟨s.work.status .err,s.mem⟩ fs hs := h.alike (.of_eq rfl rfl rfl ⟨rfl,rfl⟩)
    exact ⟨_,_,(hst.dropped hd hu).alike (.of_eq rfl rfl rfl ⟨rfl,rfl⟩)⟩

theorem Covers.gathers (h : Covers cfg s fs hs) {d : ℕ} (hd : d < cfg.ip6ReassDatagrams) (hu : (s.work.row d).used) :
    Gathers (s.work.row d) (s.pieces cfg d) (s.missing cfg d) (payloadLen s.work d) := by
  have hfs : s.work.fragsOf cfg d=fs d := h.ok.frags.walk frags_le_none hd hu
  have hhs : s.work.holesOf cfg d=hs d := h.ok.holes.walk holes_le_none hd hu
  unfold Store.pieces Store.missing
  rw [hfs,hhs]
  exact h.rows d hd hu

end Steps

section Runs

/-- A row that is free or gathers. -/
def Datagram.Awaits (r : Datagram) : Prop := r.used=false ∨ r.state=.holding

/-- A row that holds a fragment more than before. -/
def Took (w u : Work) (d : ℕ) : Prop := (w.row d).used=false ∨ (u.row d).fragCount≠(w.row d).fragCount

variable (cfg)

/-- What a call makes of a row that was free or gathered and is in use afterwards. -/
structure Settles (s t : Store) (d : ℕ) : Prop where
  /-- It is complete exactly when its packet is whole and not too long. -/
  complete : (t.work.row d).state=.complete ↔ Whole 65535 (t.pieces cfg d) ∧ payloadLen t.work d≤65535
  /-- When it is too long it is abandoned. -/
  tooLong : Whole 65535 (t.pieces cfg d) → 65535<payloadLen t.work d → (t.work.row d).state=.abandoned
  /-- A row that took a fragment and misses something goes on gathering. -/
  goesOn : Took s.work t.work d → ¬Whole 65535 (t.pieces cfg d) → (t.work.row d).state=.holding

/-- Entries of a table in use. -/
def inUse (size : ℕ) (used : ℕ → Bool) : ℕ := (List.range size).countP used

variable {cfg} {s t : Store} {fs hs : ℕ → List ℕ} {d : ℕ}

theorem Settles.of_same {gs : List Gap} (hs : Gathers (s.work.row d) ps gs total)
    (hst : (s.work.row d).state=.holding) (hu : (s.work.row d).used)
    (ht : Gathers (t.work.row d) (t.pieces cfg d) (t.missing cfg d) (payloadLen t.work d)) (hsm : t.pieces cfg d=ps) :
    Settles cfg s t d := by
  have hno : ¬Whole 65535 (t.pieces cfg d) := by
    rw [hsm]
    exact hs.holding hst
  have hn : ¬Took s.work t.work d := by
    rintro (hf | hcn)
    · rw [hu] at hf
      cases hf
    · rw [ht.count,hs.count,hsm] at hcn
      exact hcn rfl
  exact ⟨⟨fun hc => absurd (ht.complete hc).1 hno,fun hw => absurd hw.1 hno⟩,fun hw => absurd hw hno,
    fun htk => absurd htk hn⟩

/-- A row a fragment was filed in is settled by what it misses then. -/
theorem Settles.of_filed {u : Work} {a : InputArgs} {f : Fields} {fi : ℕ} {r : Datagram} {gs : List Gap} {l m : List ℕ}
    (hf : Filed cfg {s.work.started with nowMs := a.nowMs} u a f fs hs d fi r gs l m) {mem : Memory}
    (hw : m=[] ↔ Whole 65535 (Store.pieces cfg ⟨u,mem⟩ d)) : Settles cfg s ⟨u,mem⟩ d := by
  refine ⟨⟨fun hc => ?_,fun ⟨hwh,hle⟩ => (hf.completed (hw.2 hwh) hle).1⟩,
    fun hwh hl => hf.givenUp (hw.2 hwh) hl,fun _ hno => hf.goesOn fun hm => hno (hw.1 hm)⟩
  have hst : (u.row d).state=.complete := hc
  by_cases hm : m=[]
  · refine ⟨hw.1 hm,?_⟩
    by_contra hl
    rw [hf.givenUp hm (by simpa using hl)] at hst
    cases hst
  · rw [hf.goesOn hm] at hst
    cases hst

theorem Covers.settles (h : Covers cfg s fs hs) (hc : Change cfg s fs hs t) (hd : d < cfg.ip6ReassDatagrams)
    (ha : (s.work.row d).Awaits) (hu : (t.work.row d).used) : Settles cfg s t d := by
  cases hc with
  | alike u hal =>
    have hu' : (s.work.row d).used := by
      rw [←hal.keeps used (fun _ _ => rfl) d]
      exact hu
    have hst : (s.work.row d).state=.holding := ha.resolve_left (by simp [hu'])
    have ht := h.alike hal
    have hfs : u.fragsOf cfg d=fs d := ht.ok.frags.walk frags_le_none hd hu
    refine Settles.of_same (h.rows d hd hu') hst hu' (ht.gathers hd hu) ?_
    unfold Store.pieces
    rw [hfs]
    exact hal.map_piece h.ok hd
  | filed a f d' fi r gs l m u hf hg hfl =>
    have hstart : Covers cfg ⟨{s.work.started with nowMs := a.nowMs},s.mem⟩ fs hs := h.alike (.of_eq rfl rfl rfl ⟨rfl,rfl⟩)
    have ht : Covers cfg ⟨u,filedIn s.work u a.pkt s.mem⟩ (update fs d' l) (update hs d' m) :=
      hstart.filed hf hg hfl
    have hfs : u.fragsOf cfg d=update fs d' l d := ht.ok.frags.walk frags_le_none hd hu
    by_cases hdd : d=d'
    · subst hdd
      have hk : Known (u.row d) (l.map (Store.piece ⟨u,filedIn s.work u a.pkt s.mem⟩)) (u.gaps m) :=
        hstart.filed_known hf hg hfl
      refine Settles.of_filed hfl ?_
      unfold Store.pieces
      rw [hfs,update_self]
      exact hk.nil_iff
    have hr : u.row d=s.work.row d := hfl.rows d hdd
    have hu' : (s.work.row d).used := by
      rw [←hr]
      exact hu
    have hst : (s.work.row d).state=.holding := ha.resolve_left (by simp [hu'])
    refine Settles.of_same (h.rows d hd hu') hst hu' (ht.gathers hd hu) ?_
    unfold Store.pieces
    rw [hfs,update_of_ne hdd]
    exact map_congr_left fun i hi => hfl.piece_old hstart.ok hd hi
  | dropped d' hd' hu' =>
    have hstart : Covers cfg ⟨s.work.status .err,s.mem⟩ fs hs := h.alike (.of_eq rfl rfl rfl ⟨rfl,rfl⟩)
    let u := (putDatagram cfg (s.work.status .err) d').status .ok
    have ht : Covers cfg ⟨u,s.mem⟩ (update fs d' []) (update hs d' []) :=
      (hstart.dropped hd' hu').alike (.of_eq rfl rfl rfl ⟨rfl,rfl⟩)
    have hdd : d≠d' := by
      rintro rfl
      have hgn : u.row d=.zero := update_self _ _ _
      have hl : (u.row d).used := hu
      rw [hgn] at hl
      cases hl
    have hr : u.row d=s.work.row d := update_of_ne hdd _ _
    have hl : (s.work.row d).used := by
      rw [←hr]
      exact hu
    have hst : (s.work.row d).state=.holding := ha.resolve_left (by simp [hl])
    have hfs : u.fragsOf cfg d=update fs d' [] d := ht.ok.frags.walk frags_le_none hd hu
    refine Settles.of_same (h.rows d hd hl) hst hl (ht.gathers hd hu) ?_
    unfold Store.pieces
    rw [hfs,update_of_ne hdd]
    have hp : Store.piece ⟨u,s.mem⟩=s.piece := putDatagram_piece
    rw [hp]

theorem Ok.holes_le {w : Work} (h : Ok cfg w fs hs) : inUse cfg.ip6ReassHoles (fun i => (w.hole i).used) ≤
      inUse cfg.ip6ReassDatagrams (fun d => (w.row d).used)+inUse cfg.ip6ReassFrags fun i => (w.frag i).used := by
  have hh := h.holes.kept.count_eq_countP
  have hf := h.frags.kept.count_eq_countP
  have hsm : (flat cfg.ip6ReassDatagrams hs).length≤(flat cfg.ip6ReassDatagrams fs).length+
      (range cfg.ip6ReassDatagrams).countP fun d => (w.row d).used := by
    refine flat_length_le fun k hk => ?_
    cases hu : (w.row k).used with
    | true =>
      have hr := (h.rows k hk hu).room
      rwa [Work.gaps,length_map] at hr
    | false =>
      rw [h.holes.free k hk hu]
      exact Nat.zero_le _
  rw [←h.holes.kept.count_eq,←h.frags.kept.count_eq,hh,hf] at hsm
  unfold inUse
  omega

/-- Whatever is called after `clear`: a row's pieces are in order and apart, it misses what they leave and is settled
by that, and there are no more holes than rows and fragments. -/
theorem run_gathers (cfg : Config) (w : Work) (mem : Memory) (cs : List Call) :
    let s := run (Store.step cfg) ⟨clear w,mem⟩ cs
    (∀ d < cfg.ip6ReassDatagrams,(s.work.row d).used=true →
      Gathers (s.work.row d) (s.pieces cfg d) (s.missing cfg d) (payloadLen s.work d)) ∧
      (∀ c,∀ d < cfg.ip6ReassDatagrams,(s.work.row d).Awaits → ((s.step cfg c).work.row d).used=true →
        Settles cfg s (s.step cfg c) d) ∧
      s.work.holes=inUse cfg.ip6ReassHoles (fun i => (s.work.hole i).used) ∧
      s.work.frags=inUse cfg.ip6ReassFrags (fun i => (s.work.frag i).used) ∧
      s.work.holes ≤ inUse cfg.ip6ReassDatagrams (fun d => (s.work.row d).used)+s.work.frags := by
  intro s
  have hkeep : ∀ (s : Store) (c : Call),(∃ fs hs,Covers cfg s fs hs) → ∃ fs hs,Covers cfg (s.step cfg c) fs hs := by
    rintro s c ⟨fs,hs,h⟩
    exact h.change (Store.step_change h.ok c)
  have hclear : ∃ fs hs,Covers cfg ⟨clear w,mem⟩ fs hs := ⟨_,_,ok_clear w,nofun⟩
  obtain ⟨fs,hs,h⟩ : ∃ fs hs,Covers cfg s fs hs := run_always hkeep hclear
  have hholes := h.ok.holes.kept.count_eq_countP
  have hfrags := h.ok.frags.kept.count_eq_countP
  refine ⟨fun d hd hu => h.gathers hd hu,fun c d hd ha hu => h.settles (Store.step_change h.ok c) hd ha hu,hholes,hfrags,?_⟩
  rw [hholes,hfrags]
  exact h.ok.holes_le

end Runs

end Covers

end IdemIp.Ip6Reass
