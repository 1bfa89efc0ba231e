import IdemIp.Ip6ReassCover

/-!
# Fragments of an IPv6 packet in any order

Fragments that tile a packet and agree on the headers ahead of them, given to empty
tables with an entry for each and before the deadline: each is filed, and the last
to come completes the packet. The first one at offset zero sets what the packet is
described from, unless one without data takes its place.
-/

namespace IdemIp.Ip6Reass

section Firsts

open StepRun List Function Datagram

/-- What the packet of a row is described from. -/
def Work.heading (w : Work) (d : ℕ) : BitVec 8×ℕ := ((w.row d).nextHdr,(w.frag (w.row d).fragHead).hdrLen)

/-- A fragment offered at offset zero carries data. -/
def Call.filled : Call → Bool
  | .input a => (fields a).all fun f => decide (f.offset=0 → f.fragLen≠0)
  | _ => true

variable (cfg : Config)

/-- Rows that have their first fragment and are not dropped are described as before. -/
def KeepsHeading (w u : Work) : Prop :=
  ∀ d < cfg.ip6ReassDatagrams,(w.row d).used → (w.row d).firstSeen → (u.row d).used → u.heading d=w.heading d

/-- The tables are in order, and the fragments at offset zero carry data. -/
structure Solid (w : Work) (fs hs : ℕ → List ℕ) : Prop where
  ok : Ok cfg w fs hs
  data : ∀ d < cfg.ip6ReassDatagrams,∀ i∈fs d,(w.frag i).offset=0 → (w.frag i).len≠0

variable {cfg} {w u : Work} {fs hs : ℕ → List ℕ} {a : InputArgs} {f : Fields} {d fi : ℕ} {r : Datagram} {gs : List Gaps.Gap}
  {l m : List ℕ}

/-- The row of a first fragment begins with it. -/
theorem Ok.first (h : Ok cfg w fs hs) (hd : d < cfg.ip6ReassDatagrams) (hu : (w.row d).used) (hf : (w.row d).firstSeen) :
    ∃ i t,fs d=i::t ∧ i∈fs d ∧ (w.frag i).offset=0 ∧ (w.row d).fragHead=i ∧ (w.frag i).used := by
  obtain ⟨i,t,hit,ho⟩ := (h.rows d hd hu).head hf
  have hi : i∈fs d := by
    rw [hit]
    exact mem_cons_self
  have hc := h.frags.chain d hd hu
  rw [hit] at hc
  exact ⟨i,t,hit,hi,ho,hc.1,(h.frags.kept.used_of_mem hd hi).2⟩

theorem Solid.alike (h : Solid cfg w fs hs) (ha : Alike w u) : Solid cfg u fs hs ∧ KeepsHeading cfg w u := by
  refine ⟨⟨h.ok.alike ha,fun d hd i hi => ?_⟩,fun d hd hu hf _ => ?_⟩
  · rw [ha.frag i (h.ok.frags.kept.used_of_mem hd hi).2]
    exact h.data d hd i hi
  · obtain ⟨i,-,-,-,-,hh,hus⟩ := h.ok.first hd hu hf
    unfold Work.heading
    rw [ha.keeps nextHdr fun _ _ => rfl,ha.keeps fragHead fun _ _ => rfl,hh,ha.frag i hus]

theorem Solid.filed (h : Solid cfg w fs hs) (hfl : f.offset=0 → f.fragLen≠0) (hg : Goes cfg w a f hs d r gs)
    (hf : Filed cfg w u a f fs hs d fi r gs l m) : Solid cfg u (update fs d l) (update hs d m) ∧ KeepsHeading cfg w u := by
  have hok := hf.ok h.ok
  have ho : ∀ k < cfg.ip6ReassDatagrams,∀ i∈fs k,(u.frag i).offset=0 → (u.frag i).len≠0 := by
    intro k hk i hi
    obtain ⟨n,hn⟩ := hf.linked (h.ok.frags.kept.used_of_mem hk hi).2
    rw [hn]
    exact h.data k hk i hi
  refine ⟨⟨hok,fun k hk i hi => ?_⟩,fun k hk hu hfr hu' => ?_⟩
  · by_cases hkd : k=d
    · rw [hkd,update_self] at hi
      rcases mem_cons.1 (hf.perm.mem_iff.1 hi) with rfl|hi
      · obtain ⟨n,hn⟩ := hf.entry
        rw [hn]
        exact hfl
      · exact ho d hf.row_lt i hi
    · rw [update_of_ne hkd] at hi
      exact ho k hk i hi
  · obtain ⟨i,t,hit,hi,hof,hhd,hus⟩ := h.ok.first hk hu hfr
    obtain ⟨n,hn⟩ := hf.linked hus
    suffices hr : (u.row k).nextHdr=(w.row k).nextHdr ∧ (u.row k).fragHead=i by
      unfold Work.heading
      rw [hr.1,hr.2,hhd,hn]
    by_cases hkd : k=d
    · subst hkd
      cases hg with
      | opens j hfree hj =>
        rw [hfree] at hu
        cases hu
      | joins hu hj =>
        -- the first fragment shares an octet with any other that begins with it
        have h0 : f.offset≠0 := fun h0 => by
          have hlen := hfl h0
          have hdata := h.data k hk i hi hof
          refine hf.passed.clear i hi ?_
          unfold Fields.fragEnd
          omega
        obtain ⟨t',hl⟩ := hf.rest h0 i t hit hof
        have hc := hok.frags.chain k hk hu'
        rw [update_self,hl] at hc
        obtain ⟨fh,hh,st,total,hr⟩ := hf.row
        refine ⟨?_,hc.1⟩
        rw [hr,learned_eq]
        exact if_neg h0
    · rw [hf.rows k hkd]
      exact ⟨rfl,hhd⟩

theorem Solid.dropped (h : Solid cfg w fs hs) (hd : d < cfg.ip6ReassDatagrams) (hu : (w.row d).used) :
    Solid cfg (putDatagram cfg w d) (update fs d []) (update hs d []) ∧ KeepsHeading cfg w (putDatagram cfg w d) := by
  have hr : ∀ k,k≠d → (putDatagram cfg w d).row k=w.row k := fun k hk => update_of_ne hk _ _
  refine ⟨⟨putDatagram_ok h.ok hd hu,fun k hk i hi => ?_⟩,fun k hk _ _ hu' => ?_⟩
  · obtain ⟨b,hb⟩ := putDatagram_frag
    rw [hb]
    by_cases hkd : k=d
    · rw [hkd,update_self] at hi
      cases hi
    · rw [update_of_ne hkd] at hi
      exact h.data k hk i hi
  · by_cases hkd : k=d
    · rw [hkd,show (putDatagram cfg w d).row d=_ from update_self ..] at hu'
      cases hu'
    · obtain ⟨b,hb⟩ := putDatagram_frag
      unfold Work.heading
      rw [hr k hkd,hb]

theorem step_heading {w : Work} {c : Call} (h : ∃ fs hs,Solid cfg w fs hs) (hc : c.filled) :
    (∃ fs hs,Solid cfg (step cfg w c) fs hs) ∧ KeepsHeading cfg w (step cfg w c) := by
  obtain ⟨fs,hs,h⟩ := h
  have hsm : ∀ {u : Work},Alike w u → (∃ fs hs,Solid cfg u fs hs) ∧ KeepsHeading cfg w u :=
    fun ha => ⟨⟨fs,hs,(h.alike ha).1⟩,(h.alike ha).2⟩
  cases c with
  | fragAt d index => exact hsm (fragAt_alike)
  | tick now => exact hsm (tick_alike)
  | drop d =>
    have hst : Alike w (w.status .err) := .of_eq rfl rfl rfl ⟨rfl,rfl⟩
    show (∃ fs hs,Solid cfg (drop cfg w d) fs hs) ∧ KeepsHeading cfg w (drop cfg w d)
    rcases drop_cases cfg w d with ⟨-,he⟩|⟨⟨-,hd,hu⟩,he⟩
    · rw [he]
      exact hsm hst
    rw [he]
    obtain ⟨hsl,hk⟩ := (h.alike hst).1.dropped hd hu
    exact ⟨⟨_,_,hsl.ok.alike (.of_eq rfl rfl rfl ⟨rfl,rfl⟩),hsl.data⟩,hk⟩
  | input a =>
    show (∃ fs hs,Solid cfg (input cfg w a) fs hs) ∧ KeepsHeading cfg w (input cfg w a)
    have hst := (h.alike (u := {w.started with nowMs := a.nowMs}) (.of_eq rfl rfl rfl ⟨rfl,rfl⟩)).1
    rcases input_outcome h.ok with he|ho
    · rw [he]
      exact hsm (.of_eq rfl rfl rfl ⟨rfl,rfl⟩)
    generalize input cfg w a=u at ho
    cases ho with
    | unfiled _ ha _ _ _ => exact hsm ⟨ha.row,ha.used,ha.frag,ha.hole,ha.counts,ha.state⟩
    | filed f d fi r gs l m _ hf _ hg hfl =>
      change (fields a).all _=true at hc
      rw [hf] at hc
      obtain ⟨hsl,hk⟩ := hst.filed (of_decide_eq_true hc) hg hfl
      exact ⟨⟨_,_,hsl⟩,hk⟩

/-- In every run whose fragments at offset zero carry data, what a first fragment set stands until its row is dropped. -/
theorem run_keepsHeading (cfg : Config) (w : Work) (cs : List Call)
    (hcs : Along (step cfg) (fun _ c => c.filled=true) (clear w) cs) :
    Along (step cfg) (fun w c => KeepsHeading cfg w (step cfg w c)) (clear w) cs := by
  have hstart : ∃ fs hs,Solid cfg (clear w) fs hs := ⟨_,_,ok_clear w,nofun⟩
  exact Along.imp (fun v c hv hc => (step_heading hv hc).1) (fun v c hv hc => (step_heading hv hc).2) hstart hcs

/-- The first fragment of a packet, a UDP header. -/
def udpFrag : InputArgs :=
  ⟨.ofList ([0x60,0,0,0,0,16,44,64]++replicate 32 0x20++[17,0,0,1,0,0,0,1]++replicate 8 0),56,40,0,0⟩

/-- A fragment at offset zero without data, behind eight octets of Destination Options. -/
def emptyFrag : InputArgs :=
  ⟨.ofList ([0x60,0,0,0,0,16,60,64]++replicate 32 0x20++[44,0,1,4,0,0,0,0]++[59,0,0,1,0,0,0,1]),56,48,1,0⟩

/-- A first fragment that comes twice is described as it was. -/
theorem run_keepsHeading_twice : Along (step .shipped) (fun w c => KeepsHeading .shipped w (step .shipped w c)) (clear unmarked)
      [.input udpFrag,.input udpFrag] :=
  run_keepsHeading .shipped unmarked [.input udpFrag,.input udpFrag] (by decide +kernel)

/-- A fragment without data is filed in front: the packet is no longer UDP, and its headers are longer. -/
theorem empty_replaces_heading :
    let w := input .shipped (clear unmarked) udpFrag
    let u := input .shipped w emptyFrag
    ((w.row 0).used=true ∧ (w.row 0).firstSeen=true ∧ w.heading 0=(17,48)) ∧
      (u.io.status=.ok ∧ u.heading 0=(59,56)) ∧ ¬KeepsHeading .shipped w u := by
  refine ⟨by decide +kernel,by decide +kernel,fun h => ?_⟩
  exact absurd (h 0 (by decide) (by decide +kernel) (by decide +kernel) (by decide +kernel)) (by decide +kernel)

end Firsts

section Orders

open IndexChain Slots Gaps StepRun Pieces List Bool Store Function Octets

section Progress

variable {cfg : Config} {w : Work} {mem : Memory} {fs hs : ℕ → List ℕ} {a : InputArgs} {f : Fields} {d : ℕ}

theorem fields_offset_dvd (h : fields a=some f) : 8 ∣ f.offset := by
  unfold fields at h
  dsimp only at h
  split_ifs at h
  cases h
  exact Ip6.fragOffsetBytes_dvd _

theorem scanList_clear {o n : ℕ} {l : List ℕ} (hn : 0<n)
    (h : ∀ i∈l,¬(o<(w.frag i).offset+(w.frag i).len ∧ (w.frag i).offset<o+n)) (p : ℕ) : ∃ q,scanList w o n l p=.clear q := by
  induction l generalizing p with
  | nil => exact ⟨p,rfl⟩
  | cons i l ih =>
    have hi := h i mem_cons_self
    unfold scanList
    rw [if_neg (by omega),if_neg hi]
    exact ih (fun j hj => h j (mem_cons_of_mem i hj)) _

/-- A row that gathers files a fragment that agrees with its pieces, unless the packet would be too long. -/
theorem judge_passes (h : Covers cfg ⟨w,mem⟩ fs hs) (hd : d < cfg.ip6ReassDatagrams) (hu : (w.row d).used)
    (hst : (w.row d).state=.holding) (hln : 0<f.fragLen) (hf : ∀ p∈(fs d).map (Store.piece ⟨w,mem⟩),0<p.len)
    (ha : Agrees 65535 ((fs d).map (Store.piece ⟨w,mem⟩)) f.piece)
    (hsz : (w.row d).firstSeen → (w.frag (w.row d).fragHead).hdrLen-48+f.fragEnd≤65535) :
    ∃ prev,judge cfg w d f=.inr prev := by
  have hls : w.fragsOf cfg d=fs d := h.ok.frags.walk frags_le_none hd hu
  have hk : Known (w.row d) ((fs d).map (piece ⟨w,mem⟩)) (w.gaps (hs d)) := (h.rows d hd hu).toKnown
  have hc : ∀ i∈fs d,¬(f.offset<(w.frag i).offset+(w.frag i).len ∧ (w.frag i).offset<f.offset+f.fragLen) := by
    rintro i hi ⟨h1,h2⟩
    -- the later of the two first octets is one of both
    have hno := ha.clear _ (mem_map_of_mem hi) (max f.offset (w.frag i).offset)
    have hpos : 0<(w.frag i).len := hf _ (mem_map_of_mem hi)
    refine hno ⟨⟨le_max_left _ _,?_⟩,le_max_right _ _,?_⟩
    · show max f.offset (w.frag i).offset<f.offset+f.fragLen
      omega
    · show max f.offset (w.frag i).offset<(w.frag i).offset+(w.frag i).len
      omega
  obtain ⟨prev,hsc⟩ := scanList_clear hln hc none8
  have hin : inconsistent cfg w d f=false := by
    unfold inconsistent pastEnd
    rw [hls]
    cases hm : f.more with
    | true =>
      rw [if_pos rfl]
      cases hl : (w.row d).lastSeen with
      | false => rfl
      | true =>
        have he := hk.ends hl
        have hwithin : f.fragEnd≤_ := ha.within
        rw [Bool.true_and,decide_eq_false_iff_not]
        omega
    | false =>
      obtain ⟨hp,hsm⟩ := ha.last hm
      rw [if_neg nofun,Bool.or_eq_false_iff]
      constructor
      · rw [any_eq_false]
        intro i hi
        have hle : (w.frag i).offset+(w.frag i).len≤f.fragEnd := hp _ (mem_map_of_mem hi)
        rw [decide_eq_true_iff]
        omega
      · cases hl : (w.row d).lastSeen with
        | false => rfl
        | true =>
          have he : f.fragEnd=_ := hsm (hk.last.1 hl)
          rw [Bool.true_and,hk.ends hl,he,bne_self_eq_false]
  refine ⟨prev,?_⟩
  unfold judge scan
  rw [if_neg (by rw [hst]; decide),hls,hsc]
  dsimp only
  rw [if_neg (by rw [hin]; decide),if_neg]
  rintro ⟨hfr,hlong⟩
  have := hsz hfr
  omega

/-- A fragment that no row has begun opens one while there is an entry and a row. -/
theorem file_opens (h : Ok cfg w fs hs) (hf : fields a=some f) (hb : f.bad a=false)
    (ha : ¬(f.offset=0 ∧ f.more=false)) (hm : matchRow cfg w (a.pkt.drop 8) (a.pkt.drop 24) f.ident=none)
    (hfr : w.frags < cfg.ip6ReassFrags) (hc : w.datagrams < cfg.ip6ReassDatagrams) (hr : (w.row 0).used=false) :
    ∃ d fi j l m,Goes cfg w a f hs d (freshRow cfg w a f j) [⟨0,0xFFFF⟩] ∧
      Filed cfg w (file cfg w a) a f fs hs d fi (freshRow cfg w a f j) [⟨0,0xFFFF⟩] l m := by
  simp only [Fields.bad,or_eq_false_iff,and_eq_false_iff,decide_eq_false_iff_not] at hb
  obtain ⟨⟨hml,hl⟩,hsh⟩ := hb
  have hfile : file cfg w a=fileFrag cfg w none none8 a f := by
    unfold file
    rw [hf]
    dsimp only
    rw [if_neg (by rintro ⟨h1,h2⟩; simp [h1,h2] at hml),if_neg hl,if_neg (by rintro ⟨h1,h2⟩; simp [h1,h2] at hsh),
      if_neg ha,hm]
  have hjn : joinsRow cfg w a=none := by
    unfold joinsRow
    rw [hf]
    dsimp only
    rw [hm]
    split_ifs <;> rfl
  rw [hfile]
  unfold fileFrag
  rcases takeFrag_cases cfg w with hn|⟨fi,hfi,hfree,ht⟩
  · obtain ⟨i,hi⟩ := h.frags.kept.free hfr
    unfold takeFrag at hn
    rw [if_neg (by omega),show firstIndex cfg.ip6ReassFrags (fun i => !(w.frag i).used)=some i from hi] at hn
    cases hn
  rw [ht]
  dsimp only
  rcases openRow_cases (a := a) (f := f) (w.tookFrag fi) h.holes.kept fun d hd hu => h.holes_room hd hu with
    ⟨hn,-⟩ | ⟨d,hd,j,hj',hu,hj,ho⟩
  · unfold takeDatagram at hn
    rw [if_neg (show ¬cfg.ip6ReassDatagrams≤(w.tookFrag fi).datagrams from Nat.not_le.2 hc)] at hn
    have hal := firstIndex_none.1 (Option.map_eq_none_iff.1 hn) 0 (by omega)
    rw [show (w.tookFrag fi).row 0=w.row 0 from rfl,hr] at hal
    cases hal
  · rw [ho]
    obtain ⟨l,m,hfl⟩ := opened_filed h (Nat.not_lt.1 hl) hfi hfree hd hj' hu hj
    exact ⟨d,fi,j,l,m,.opens d j hu hjn,hfl⟩

/-- A fragment whose row lets it pass is filed there while there is an entry. -/
theorem file_joins (h : Ok cfg w fs hs) (hst : w.io.status=.err) (hcp : w.io.complete=false) (hf : fields a=some f)
    (hb : f.bad a=false) (ha : ¬(f.offset=0 ∧ f.more=false))
    (hm : matchRow cfg w (a.pkt.drop 8) (a.pkt.drop 24) f.ident=some d) {prev : ℕ} (hj : judge cfg w d f=.inr prev)
    (hfr : w.frags < cfg.ip6ReassFrags) : ∃ fi l m,Goes cfg w a f hs d (w.row d) (w.gaps (hs d)) ∧
      Filed cfg w (file cfg w a) a f fs hs d fi (w.row d) (w.gaps (hs d)) l m := by
  have hjn : joinsRow cfg w a=some (f,d) := by
    unfold joinsRow
    rw [hf]
    dsimp only
    have hno : (f.bad a || decide (f.offset=0) && !f.more)=false := by
      rw [hb,Bool.false_or,Bool.and_eq_false_iff]
      by_cases h0 : f.offset=0
      · exact .inr (by simpa [h0] using ha)
      · exact .inl (decide_eq_false h0)
    rw [hno,if_neg nofun,hm]
    dsimp only
    rw [hj]
    rw [if_pos]
    rcases takeFrag_cases cfg w with hn|⟨fi,-,-,ht⟩
    · obtain ⟨i,hi⟩ := h.frags.kept.free hfr
      unfold takeFrag at hn
      rw [if_neg (by omega),show firstIndex cfg.ip6ReassFrags (fun i => !(w.frag i).used)=some i from hi] at hn
      cases hn
    · rw [ht]
      rfl
  have ho := file_outcome (a := a) h hst hcp
  generalize file cfg w a=u at ho
  cases ho with
  | unfiled _ _ _ _ hno => exact (nomatch hjn.symm.trans hno)
  | filed f' d' fi r gs l m _ hf' hbad' hg hfl =>
    obtain rfl : f=f' := Option.some.inj (hf.symm.trans hf')
    cases hg with
    | joins hu hj' =>
      obtain rfl : d=d' := (Prod.mk.inj (Option.some.inj (hjn.symm.trans hj'))).2
      exact ⟨fi,l,m,.joins d hu hj',hfl⟩
    | opens j hfree hno => exact (nomatch hjn.symm.trans hno)

end Progress

/-- What the fragments of one packet share. -/
structure Shared where
  (src dst : Octets)
  ident : BitVec 32
  /-- Octets from the IPv6 header to the fragment data. -/
  hdrLen : ℕ
  nextHdr : BitVec 8

/-- Fragments with what their headers say, in offset order, that tile a packet of at most 65535 octets. -/
structure Tiling (k : Shared) (as : List (InputArgs×Fields)) : Prop where
  reads : ∀ x∈as,fields x.1=some x.2
  /-- They follow each other from the first octet to the last. -/
  tiles : TilesFrom 0 (as.map fun x => x.2.piece)
  /-- A packet in one piece joins no others. -/
  several : 2≤as.length
  chain : ∀ x∈as,x.2.offset=0 → chainShort x.1=false
  src : ∀ x∈as,(x.1.pkt.drop 8).bytesEq k.src 16
  dst : ∀ x∈as,(x.1.pkt.drop 24).bytesEq k.dst 16
  ident : ∀ x∈as,x.2.ident=k.ident
  hdrLen : ∀ x∈as,x.2.hdrLen=k.hdrLen
  nextHdr : ∀ x∈as,x.2.nextHdr=k.nextHdr
  size : k.hdrLen-48+endOf (as.map fun x => x.2.piece)≤65535

/-- A row of the packet, as it is or as it was opened, and the pieces it holds. -/
structure Sole (k : Shared) (s : Store) (r : Datagram) (fl : List ℕ) (came : List Piece) : Prop where
  used : r.used
  state : r.state=.holding
  ident : r.ident=k.ident
  src : r.src.bytesEq k.src 16
  dst : r.dst.bytesEq k.dst 16
  pieces : (fl.map s.piece).Perm came
  headers : ∀ i∈fl,(s.work.frag i).hdrLen=k.hdrLen
  nextHdr : r.firstSeen → r.nextHdr=k.nextHdr

/-- Tables that hold the fragments of one packet and nothing else. -/
structure Lone (cfg : Config) (k : Shared) (s : Store) (came : List Piece) : Prop where
  ready : s.work.ready
  count : s.work.frags=came.length
  fresh : came=[] → s.work.datagrams=0 ∧ ∀ j,(s.work.row j).used=false
  rows : ∃ fs hs,Covers cfg s fs hs ∧ (came≠[] → ∃ d < cfg.ip6ReassDatagrams,
    Sole k s (s.work.row d) (fs d) came ∧ ∀ j,j≠d → (s.work.row j).used=false)

section Arrivals

variable {cfg : Config} {k : Shared} {s : Store} {w u : Work} {mem : Memory} {fs hs : ℕ → List ℕ} {came rest : List Piece}
  {as : List (InputArgs×Fields)} {a : InputArgs} {f : Fields} {d : ℕ}

theorem bytesEq_trans {p q r : Octets} {n : ℕ} (h : p.bytesEq q n) (h' : r.bytesEq q n) : p.bytesEq r n :=
  bytesEq_iff.2 fun i hi => (bytesEq_iff.1 h i hi).trans (bytesEq_iff.1 h' i hi).symm

theorem Tiling.sound (h : Tiling k as) (hx : (a,f)∈as) :
    f.bad a=false ∧ ¬(f.offset=0 ∧ f.more=false) ∧ 0<f.fragLen ∧ f.piece.stop≤endOf (as.map fun x => x.2.piece) := by
  have hmm : f.piece∈as.map fun x => x.2.piece := mem_map.2 ⟨(a,f),hx,rfl⟩
  have hh := h.tiles.tiles.high _ hmm
  have hstop : f.piece.stop=f.fragEnd := rfl
  have hsize := h.size
  refine ⟨?_,h.tiles.not_alone (by rw [length_map]; exact h.several) f.piece hmm,h.tiles.tiles.filled _ hmm,hh⟩
  simp only [Fields.bad,or_eq_false_iff,and_eq_false_iff,decide_eq_false_iff_not]
  have hf : ¬65535<f.fragEnd := by omega
  refine ⟨⟨?_,hf⟩,?_⟩
  · by_cases hm : f.more
    · -- whole units: the next tile begins at one
      have hu : ∀ p∈as.map fun x => x.2.piece,8 ∣ p.first := by
        intro p hp
        obtain ⟨x,hx,rfl⟩ := mem_map.1 hp
        exact fields_offset_dvd (h.reads x hx)
      have hd := h.tiles.dvd hu f.piece hmm hm
      exact .inr (by rw [bne_eq_false_iff_eq]; exact Nat.mod_eq_zero_of_dvd hd)
    · exact .inl (eq_false_of_not_eq_true hm)
  · by_cases h0 : f.offset=0
    · exact .inr (h.chain (a,f) hx h0)
    · exact .inl h0

/-- A fragment of the tiling is held, and completes the packet when it is the last to come. -/
theorem Sole.filed {r : Datagram} {gs : List Gap} {fi : ℕ} {l m : List ℕ} (hsl : Sole k ⟨w,mem⟩ r (fs d) came)
    (hcv : Covers cfg ⟨w,mem⟩ fs hs) (htl : Tiling k as) (hx : (a,f)∈as)
    (hpr : (came++f.piece::rest).Perm (as.map fun x => x.2.piece)) (hcp : w.io.complete=false)
    (hg : Goes cfg w a f hs d r gs) (hf : Filed cfg w u a f fs hs d fi r gs l m) :
    u.io.status=.ok ∧ (u.io.complete ↔ rest=[]) ∧ (rest≠[] → Sole k ⟨u,filedIn w u a.pkt mem⟩ (u.row d) l (came++[f.piece])) ∧
      (rest=[] → u.io.totalLen=k.hdrLen-48+endOf (as.map fun x => x.2.piece) ∧ u.io.nextHdr=k.nextHdr) := by
  have hr : fields a=some f := htl.reads (a,f) hx
  have hnh : f.nextHdr=k.nextHdr := htl.nextHdr (a,f) hx
  have hhl : f.hdrLen=k.hdrLen := htl.hdrLen (a,f) hx
  have hk := hcv.filed_known hr hg hf
  have hu : (u.row d).used := hf.used hsl.used
  have hp : (l.map (piece ⟨u,filedIn w u a.pkt mem⟩)).Perm (came++[f.piece]) := by
    refine (hf.perm.map _).trans ?_
    rw [map_cons,hf.piece_new hr,map_congr_left fun i hi => hf.piece_old hcv.ok hf.row_lt hi]
    exact (hsl.pieces.cons f.piece).trans (perm_append_singleton f.piece came).symm
  have ha : (came++[f.piece]++rest).Perm (as.map fun x => x.2.piece) := by
    rw [append_assoc]
    exact hpr
  have hw : m=[] ↔ rest=[] := hk.nil_iff.trans (htl.tiles.tiles.whole_iff ((hp.append_right _).trans ha))
  have hhd : ∀ i∈l,(u.frag i).hdrLen=k.hdrLen := by
    intro i hi
    rcases mem_cons.1 (hf.perm.subset hi) with rfl|hi
    · obtain ⟨n,hn⟩ := hf.entry
      rw [hn]
      exact hhl
    obtain ⟨n,hn⟩ := hf.linked (hcv.ok.frags.kept.used_of_mem hf.row_lt hi).2
    rw [hn]
    exact hsl.headers i hi
  have hpy : m=[] → payloadLen u d=k.hdrLen-48+endOf (as.map fun x => x.2.piece) := by
    intro hm
    obtain ⟨hl,-⟩ := hk.nil_iff.1 hm
    have hcov' := hcv.filed hr hg hf
    have hhe : (u.row d).fragHead∈l := by
      have hmm := head_mem hcov'.ok hf.row_lt hu (by
        rw [update_self]
        intro hnl
        have hln := hf.perm.length_eq
        rw [hnl] at hln
        cases hln)
      rwa [update_self] at hmm
    unfold payloadLen
    rw [hhd _ hhe,hk.ends (hk.last.2 hl)]
    congr 1
    exact htl.tiles.tiles.bound_eq (fun q hq => ha.subset (mem_append_left _ (hp.subset hq))) hl
  have hsz : m=[] → payloadLen u d≤65535 := fun hm => by
    rw [hpy hm]
    exact htl.size
  obtain ⟨fh,hh,st,total,hrw⟩ := hf.row
  by_cases hm : m=[]
  · obtain ⟨hst,hc,ht⟩ := hf.done hm (hsz hm)
    refine ⟨hst,iff_of_true hc (hw.1 hm),fun hne => (hne (hw.1 hm)).elim,fun _ => ⟨ht.trans (hpy hm),?_⟩⟩
    rw [hf.nextHdr,Datagram.learned_eq]
    dsimp only
    split_ifs with h0
    · exact hnh
    · exact hsl.nextHdr ((hf.seen hm).resolve_left h0)
  obtain ⟨hst,hc⟩ := hf.pending hm
  refine ⟨hst,iff_of_false (by rw [hc,hcp]; decide) fun hno => hm (hw.2 hno),fun _ => ?_,fun hno => (hm (hw.2 hno)).elim⟩
  have hstate := hf.goesOn hm
  rw [hrw,Datagram.learned_eq] at hu hstate ⊢
  refine ⟨hu,hstate,hsl.ident,hsl.src,hsl.dst,hp,hhd,fun hfr => ?_⟩
  rw [or_eq_true,decide_eq_true_iff] at hfr
  dsimp only
  split_ifs with h0
  · exact hnh
  · exact hsl.nextHdr (hfr.resolve_left h0)

theorem Sole.matchRow_eq (hsl : Sole k s (s.work.row d) (fs d) came) (hd : d < cfg.ip6ReassDatagrams)
    (ho : ∀ j,j≠d → (s.work.row j).used=false) (htl : Tiling k as) (hx : (a,f)∈as) :
    matchRow cfg s.work (a.pkt.drop 8) (a.pkt.drop 24) f.ident=some d := by
  have hsr := bytesEq_trans hsl.src (htl.src (a,f) hx)
  have hds := bytesEq_trans hsl.dst (htl.dst (a,f) hx)
  have hid : (s.work.row d).ident=f.ident := hsl.ident.trans (htl.ident (a,f) hx).symm
  unfold matchRow
  rw [firstIndex_only hd fun j _ hj => by rw [ho j hj]; rfl,if_pos]
  rw [hsl.used,hsl.state,hid,hsr,hds,beq_self_eq_true,beq_self_eq_true]
  rfl

/-- A fragment of the packet is held, and completes it when it is the last to come. -/
theorem Lone.input (h : Lone cfg k s came) (htl : Tiling k as) (hx : (a,f)∈as)
    (hpr : (came++f.piece::rest).Perm (as.map fun x => x.2.piece)) (hroom : as.length ≤ cfg.ip6ReassFrags)
    (hrw : 0 < cfg.ip6ReassDatagrams) :
    let u := Ip6Reass.input cfg s.work a
    u.io.status=.ok ∧ (u.io.complete ↔ rest=[]) ∧ (rest≠[] → Lone cfg k (s.step cfg (.input a)) (came++[f.piece])) ∧
      (rest=[] → u.io.totalLen=k.hdrLen-48+endOf (as.map fun x => x.2.piece) ∧ u.io.nextHdr=k.nextHdr) := by
  obtain ⟨w,mem⟩ := s
  obtain ⟨hrd,hc,hfr,fs,hs,hcv,hro⟩ := h
  dsimp only at hrd hc hfr hro
  obtain ⟨hb,ha,hps,he⟩ := htl.sound hx
  have hr : fields a=some f := htl.reads (a,f) hx
  have hfrag : w.frags < cfg.ip6ReassFrags := by
    have hln := hpr.length_eq
    rw [length_append,length_cons,length_map] at hln
    omega
  -- the call reads the fragment
  obtain ⟨v,hv⟩ : ∃ v,v={w.started with nowMs := a.nowMs} := ⟨_,rfl⟩
  have hin : Ip6Reass.input cfg w a=file cfg v a := by
    have hln : ¬(!w.ready || decide (a.len<40)) := by
      have hl : ¬a.len<40 := by
        unfold fields at hr
        dsimp only at hr
        split_ifs at hr with h1
        omega
      rw [hrd,decide_eq_false hl]
      decide
    rw [hv]
    exact if_neg hln
  have hvc : Covers cfg ⟨v,mem⟩ fs hs := by
    rw [hv]
    exact hcv.alike (.of_eq rfl rfl rfl ⟨rfl,rfl⟩)
  have hvr : v.row=w.row := by rw [hv]; rfl
  have hvf : v.frag=w.frag := by rw [hv]; rfl
  have hvcount : v.frags=w.frags := by rw [hv]; rfl
  have hvready : v.ready=w.ready := by rw [hv]; rfl
  have hst : v.io.status=.err := by rw [hv]; rfl
  have hcp : v.io.complete=false := by rw [hv]; rfl
  have hpi : piece ⟨v,mem⟩=piece ⟨w,mem⟩ := by
    unfold piece
    rw [hvf]
  have hmm : ∀ u,filedIn w u a.pkt mem=filedIn v u a.pkt mem := by
    intro u
    unfold filedIn
    rw [hvf]
  -- it goes to the row of the packet, held or opened for it
  obtain ⟨d,fi,r,gs,l,m,hsl,ho,hg,hf⟩ : ∃ d fi r gs l m,Sole k ⟨v,mem⟩ r (fs d) came ∧
      (∀ j,j≠d → (w.row j).used=false) ∧ Goes cfg v a f hs d r gs ∧ Filed cfg v (file cfg v a) a f fs hs d fi r gs l m := by
    by_cases hne : came=[]
    · obtain ⟨hz,hu⟩ := hfr hne
      have hno : matchRow cfg v (a.pkt.drop 8) (a.pkt.drop 24) f.ident=none := by
        refine firstIndex_none.2 fun j _ => ?_
        rw [hvr,hu j]
        rfl
      obtain ⟨d,fi,j,l,m,hg,hf⟩ := file_opens hvc.ok hr hb ha hno (hvcount.trans_lt hfrag)
        (by rw [hv]; exact hz.trans_lt hrw) (by rw [hvr]; exact hu 0)
      have hn : fs d=[] := hvc.ok.frags.free d hf.row_lt (by rw [hvr]; exact hu d)
      refine ⟨d,fi,_,_,l,m,⟨rfl,rfl,htl.ident (a,f) hx,?_,?_,?_,?_,fun hno => ?_⟩,fun j _ => hu j,hg,hf⟩
      · exact bytesEq_trans (padded_bytesEq _ _) (bytesEq_iff.2 fun i hi =>
          (bytesEq_iff.1 (htl.src (a,f) hx) i hi).symm)
      · exact bytesEq_trans (padded_bytesEq _ _) (bytesEq_iff.2 fun i hi =>
          (bytesEq_iff.1 (htl.dst (a,f) hx) i hi).symm)
      · rw [hn,hne]
        exact .refl _
      · rw [hn]
        exact fun i hi => (not_mem_nil hi).elim
      · cases hno
    obtain ⟨d,hd,hsl,ho⟩ := hro hne
    have hsole' : Sole k ⟨v,mem⟩ (v.row d) (fs d) came := by
      obtain ⟨h1,h2,h3,h4,h5,h6,h7,h8⟩ := hsl
      rw [hvr]
      exact ⟨h1,h2,h3,h4,h5,by rw [hpi]; exact h6,by rw [hvf]; exact h7,h8⟩
    have hm : matchRow cfg v (a.pkt.drop 8) (a.pkt.drop 24) f.ident=some d :=
      hsole'.matchRow_eq hd (by rw [hvr]; exact ho) htl hx
    have hpc := (hsole'.pieces.append_right _).trans hpr
    have hle : endOf (as.map fun x => x.2.piece)≤65535 := le_trans (Nat.le_add_left _ _) htl.size
    have hfl : ∀ p∈(fs d).map (piece ⟨v,mem⟩),0<p.len := fun p hp =>
      htl.tiles.tiles.filled p (hpc.subset (mem_append_left _ hp))
    obtain ⟨prev,hj⟩ := judge_passes hvc hd hsole'.used hsole'.state hps hfl
      (htl.tiles.tiles.agrees hpc hle) fun hfirst => by
        have hn : fs d≠[] := by
          intro hn
          have hp := hsole'.pieces
          rw [hn] at hp
          exact hne hp.symm.eq_nil
        rw [hsole'.headers _ (head_mem hvc.ok hd hsole'.used hn)]
        have hsize := htl.size
        have hstop : f.piece.stop=f.fragEnd := rfl
        omega
    obtain ⟨fi,l,m,hg,hf⟩ := file_joins hvc.ok hst hcp hr hb ha hm hj (hvcount.trans_lt hfrag)
    exact ⟨d,fi,_,_,l,m,hsole',ho,hg,hf⟩
  obtain ⟨hok,hcm,hgo,he⟩ := hsl.filed hvc htl hx hpr hcp hg hf
  rw [hin]
  refine ⟨hok,hcm,fun hrs => ?_,he⟩
  have hstep : Store.step cfg ⟨w,mem⟩ (.input a)=⟨file cfg v a,filedIn v (file cfg v a) a.pkt mem⟩ := by
    show Store.mk (Ip6Reass.input cfg w a) (filedIn w (Ip6Reass.input cfg w a) a.pkt mem)=_
    rw [hin,hmm]
  rw [hstep]
  refine ⟨hf.ready.trans (hvready.trans hrd),?_,fun hn => ?_,_,_,hvc.filed hr hg hf,fun _ => ⟨d,hf.row_lt,?_,fun j hj => ?_⟩⟩
  · rw [length_append,length_singleton,←hc,←hvcount]
    exact hf.count
  · exact (append_ne_nil_of_right_ne_nil _ (cons_ne_nil _ _) hn).elim
  · rw [update_self]
    exact hgo hrs
  · show ((file cfg v a).row j).used=false
    rw [hf.rows j hj,hvr]
    exact ho j hj

end Arrivals

/-- A call that gives a fragment, or lets time pass before the deadline of a row in use. -/
def Early (cfg : Config) (w : Work) : Call → Prop
  | .input _ => True
  | .tick nowMs => ∀ i < cfg.ip6ReassDatagrams,(w.row i).used → ¬nowMs-(w.row i).deadlineMs<0x80000000
  | _ => False

/-- What a call gives to the unit. -/
def Call.given : Call → Option InputArgs
  | .input a => some a
  | _ => none

section Orders

variable {cfg : Config} {k : Shared} {s : Store} {w : Work} {came rest : List Piece} {as xs : List (InputArgs×Fields)}

theorem tick_early {now : BitVec 32} (h : Early cfg w (.tick now)) :
    (tick cfg w now).ready=w.ready ∧ (tick cfg w now).frags=w.frags ∧ (tick cfg w now).datagrams=w.datagrams ∧
      (tick cfg w now).row=w.row ∧ (tick cfg w now).frag=w.frag := by
  have hr : (fun i => if i < cfg.ip6ReassDatagrams then (w.row i).aged now else w.row i)=w.row := by
    funext i
    split_ifs with hi
    · unfold Datagram.aged
      cases hu : (w.row i).used with
      | false => rfl
      | true => rw [Bool.not_true,if_neg nofun,if_neg (h i hi hu)]
    · rfl
  unfold tick
  dsimp only
  split_ifs
  · exact ⟨rfl,rfl,rfl,rfl,rfl⟩
  split <;> exact ⟨rfl,rfl,rfl,hr,rfl⟩

theorem Lone.tick {now : BitVec 32} (h : Lone cfg k s came) (he : Early cfg s.work (.tick now)) :
    Lone cfg k (s.step cfg (.tick now)) came := by
  obtain ⟨w,mem⟩ := s
  obtain ⟨hr,hc,hf,fs,hs,hcv,hrw⟩ := h
  obtain ⟨h1,h2,h3,h4,h5⟩ := tick_early he
  have hcov' : Covers cfg ⟨Ip6Reass.tick cfg w now,mem⟩ fs hs := hcv.alike (tick_alike)
  refine ⟨h1.trans hr,h2.trans hc,fun hn => ⟨h3.trans (hf hn).1,fun j => ?_⟩,fs,hs,hcov',fun hne => ?_⟩
  · show ((Ip6Reass.tick cfg w now).row j).used=false
    rw [h4]
    exact (hf hn).2 j
  · obtain ⟨d,hd,hsl,ho⟩ := hrw hne
    refine ⟨d,hd,?_,fun j hj => ?_⟩
    · have hp : piece ⟨Ip6Reass.tick cfg w now,mem⟩=piece ⟨w,mem⟩ := by
        unfold piece
        rw [h5]
      show Sole k ⟨Ip6Reass.tick cfg w now,mem⟩ ((Ip6Reass.tick cfg w now).row d) (fs d) came
      rw [h4]
      obtain ⟨g1,g2,g3,g4,g5,g6,g7,g8⟩ := hsl
      exact ⟨g1,g2,g3,g4,g5,by rw [hp]; exact g6,by rw [h5]; exact g7,g8⟩
    · show ((Ip6Reass.tick cfg w now).row j).used=false
      rw [h4]
      exact ho j hj

theorem lone_clear (cfg : Config) (k : Shared) (w : Work) (mem : Memory) : Lone cfg k ⟨clear w,mem⟩ [] :=
  ⟨rfl,rfl,fun _ => ⟨rfl,fun _ => rfl⟩,_,_,⟨ok_clear w,nofun⟩,fun hne => (hne rfl).elim⟩

/-- Fragments of one packet come to tables that hold nothing else, while others of its are missing. -/
theorem Lone.run (h : Lone cfg k s came) (htl : Tiling k as) (hr : as.length ≤ cfg.ip6ReassFrags)
    (hrw : 0 < cfg.ip6ReassDatagrams) (cs : List Call) (he : Along (Store.step cfg) (fun s c => Early cfg s.work c) s cs)
    (hg : cs.filterMap Call.given=xs.map Prod.fst) (hsb : ∀ x∈xs,x∈as) (hrs : rest≠[])
    (hp : (came++(xs.map fun x => x.2.piece)++rest).Perm (as.map fun x => x.2.piece)) :
    Along (Store.step cfg) (fun s c => ∀ a,c=.input a →
        (Ip6Reass.input cfg s.work a).io.status=.ok ∧ (Ip6Reass.input cfg s.work a).io.complete=false) s cs ∧
      Lone cfg k (StepRun.run (Store.step cfg) s cs) (came++xs.map fun x => x.2.piece) := by
  induction cs generalizing s came xs with
  | nil =>
    obtain rfl : xs=[] := map_eq_nil_iff.1 hg.symm
    exact ⟨trivial,by rwa [map_nil,append_nil]⟩
  | cons c cs ih =>
    obtain ⟨ho,hm⟩ := he
    cases c with
    | input a =>
      rw [filterMap_cons_some (show Call.given (.input a)=some a from rfl)] at hg
      cases xs with
      | nil => cases hg
      | cons x xs =>
        obtain ⟨a',f⟩ := x
        obtain ⟨rfl,ht⟩ := cons.inj hg
        have hf : came++((a,f)::xs).map (fun x => x.2.piece)=came++[f.piece]++xs.map fun x => x.2.piece := by
          rw [map_cons,append_assoc,singleton_append]
        rw [hf] at hp ⊢
        have hl : (xs.map fun x => x.2.piece)++rest≠[] := fun hn => hrs (append_eq_nil_iff.1 hn).2
        have hsp : (came++f.piece::((xs.map fun x => x.2.piece)++rest)).Perm (as.map fun x => x.2.piece) := by
          rw [append_assoc,append_assoc,singleton_append] at hp
          exact hp
        obtain ⟨hok,hcm,hgo,-⟩ := h.input htl (hsb _ mem_cons_self) hsp hr hrw
        obtain ⟨hal,hen⟩ := ih (hgo hl) hm ht (fun x hx => hsb x (mem_cons_of_mem _ hx)) hp
        refine ⟨⟨fun b hb => ?_,hal⟩,hen⟩
        cases hb
        exact ⟨hok,eq_false_of_not_eq_true fun hc => hl (hcm.1 hc)⟩
    | tick nowMs =>
      rw [filterMap_cons_none (show Call.given (.tick nowMs)=none from rfl)] at hg
      obtain ⟨hal,hen⟩ := ih (h.tick ho) hm hg hsb hp
      exact ⟨⟨nofun,hal⟩,hen⟩
    | fragAt d index => exact ho.elim
    | drop d => exact ho.elim

/-- A packet's fragments in any order, given to empty tables with room before the deadline: each is held, and the last
completes it. -/
theorem clear_gathers (cfg : Config) (w : Work) (htl : Tiling k as) (hr : as.length ≤ cfg.ip6ReassFrags)
    (hrw : 0 < cfg.ip6ReassDatagrams) {before : List Call} {b : InputArgs} (hg : before.filterMap Call.given++[b]=xs.map Prod.fst)
    (hpr : xs.Perm as) (he : Along (step cfg) (Early cfg) (clear w) before) : Along (step cfg) (fun u c => ∀ a,c=.input a →
        (Ip6Reass.input cfg u a).io.status=.ok ∧ (Ip6Reass.input cfg u a).io.complete=false) (clear w) before ∧
      let u := Ip6Reass.input cfg (StepRun.run (step cfg) (clear w) before) b
      u.io.status=.ok ∧ u.io.complete ∧ u.io.totalLen=k.hdrLen-48+endOf (as.map fun x => x.2.piece) ∧
        u.io.nextHdr=k.nextHdr := by
  obtain ⟨s,hs⟩ : ∃ s : Store,s=⟨clear w,fun _ => zero⟩ := ⟨_,rfl⟩
  have hw : s.work=clear w := by rw [hs]
  have hl : Lone cfg k s [] := by
    rw [hs]
    exact lone_clear cfg k w _
  have hst : ∀ (s : Store) (c : Call),(Store.step cfg s c).work=step cfg s.work c := by
    intro s c
    cases c <;> rfl
  -- the last call gives the last of them
  obtain ⟨ys,⟨b',f⟩,rfl⟩ : ∃ ys x,xs=ys++[x] := by
    rcases eq_nil_or_concat' xs with rfl|⟨ys,x,hx⟩
    · exact (append_ne_nil_of_right_ne_nil _ (cons_ne_nil _ _) hg).elim
    · exact ⟨ys,x,hx⟩
  rw [map_append,map_singleton] at hg
  obtain ⟨hb,hls⟩ := append_inj' hg rfl
  obtain rfl : b=b' := (cons.inj hls).1
  have hp := hpr.map fun x => x.2.piece
  rw [map_append,map_singleton] at hp
  rw [←hw,←along_map work hst] at he
  obtain ⟨hal,hen⟩ := hl.run htl hr hrw before he hb (fun x hx => hpr.subset (mem_append_left _ hx))
    (cons_ne_nil f.piece []) (by rwa [nil_append])
  rw [nil_append] at hen
  obtain ⟨hok,hc,-,hd⟩ := hen.input htl (hpr.subset (mem_append_right _ (mem_singleton_self _))) hp hr hrw
  rw [←hw,←StepRun.run_map work hst]
  exact ⟨(along_map work hst _ s before).1 hal,hok,hc.2 rfl,hd rfl⟩

end Orders

end Orders

end IdemIp.Ip6Reass
