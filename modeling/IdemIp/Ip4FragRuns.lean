import IdemIp.Ip4Frag
import IdemIp.Ip4ReassOrder

/-!
# Cutting an IPv4 datagram and gathering it again

Calls of `next` behind a `begin` write the fragments of the datagram one after the
other, whatever buffers are too small in between, and there are no more of them
than the data has units. The fragments of a whole datagram tile it, so a reassembler
completes it in any order.
-/

namespace IdemIp.Ip4Frag

open OptionList Pieces StepRun List Nat Ip4 Octets

section Opening

variable {w : Work} {a : BeginArgs}

/-- A datagram that is cut lies in the context with what every cut needs. -/
theorem cut_open {c : Ctx} (hr : c.ready) (hv : verify a.dgram a.len) (hm : 68≤a.mtu)
    (hw : mf a.dgram → payloadLen a.dgram%8=0) (hlt : a.mtu<totalLen a.dgram)
    (hf : fragUnits a.dgram+payloadLen a.dgram/8≤0x1FFF) :
    Open a.dgram a.mtu {(c.fill a.dgram).cut a.mtu with opened := true} := by
  obtain ⟨h20,hle,-⟩ := verify_bounds hv
  have h60 := (hdrLen_le a.dgram).1
  have hk : (copyOptions a.dgram (hdrLen a.dgram) Octets.zero 0).1=
      (kept a.dgram (hdrLen a.dgram) (hdrLen a.dgram) 20).length := by
    unfold copyOptions
    rw [copyLoop_eq,zero_add]
  have hrd : (20+(copyOptions a.dgram (hdrLen a.dgram) Octets.zero 0).1+3)/4*4=reducedLen a.dgram := by
    rw [hk]
    rfl
  have hvl : verify a.dgram (totalLen a.dgram) := verify_congr hv (fun _ _ => rfl) le_rfl
  refine ⟨hr,rfl,rfl,rfl,rfl,rfl,rfl,hvl,hm,hw,iff_of_true rfl hlt,fun _ => hrd,fun _ => rfl,fun _ => ?_,fun _ => hf,
    fun _ _ => ⟨?_,rfl,zero_le _,fun _ => rfl⟩,nofun⟩
  · show (a.mtu-(20+(copyOptions a.dgram (hdrLen a.dgram) Octets.zero 0).1+3)/4*4)/8*8=_
    rw [hrd]
  · show 0<totalLen a.dgram-hdrLen a.dgram
    omega

/-- A `begin` that reports OK took the datagram, and stands at its first octet. -/
theorem begin_open (h : (begin w a).io.status=.ok) :
    Open a.dgram a.mtu (begin w a).ctx ∧ (begin w a).ctx.done=false ∧ (begin w a).ctx.cursor=0 ∧ (begin w a).ctx.index=0 := by
  unfold begin at h ⊢
  cases hr : w.ctx.ready with
  | false =>
    rw [hr] at h
    cases h
  | true =>
    rw [hr,if_pos rfl] at h
    rw [if_pos rfl]
    unfold take at h ⊢
    dsimp only at h ⊢
    split_ifs at h ⊢ with h1 h2 h3 h4 h5 h6
    all_goals try cases h
    all_goals
      have hv : verify a.dgram a.len := Bool.eq_true_of_not_eq_false fun hf => h1 (.inr hf)
      have hw : mf a.dgram → payloadLen a.dgram%8=0 := by
        intro hm
        by_contra hne
        exact h3 ⟨hm,.inr hne⟩
    · exact ⟨cut_open hr hv (by omega) hw h4 (not_lt.1 h6),rfl,rfl,rfl⟩
    · have hvl : verify a.dgram (totalLen a.dgram) := verify_congr hv (fun _ _ => rfl) le_rfl
      exact ⟨⟨hr,rfl,rfl,rfl,rfl,rfl,rfl,hvl,by omega,hw,iff_of_false Bool.false_ne_true h4,fun hs => (nomatch hs),
        fun hs => (nomatch hs),fun hs => (nomatch hs),fun hs => (nomatch hs),fun hs => (nomatch hs),fun _ _ => ⟨rfl,rfl⟩⟩,rfl,rfl,rfl⟩

end Opening

/-- A call of `next` with the state it leaves. -/
def stepNext (w : Work) (a : NextArgs) : Work := (next w a).1

/-- The fragment a call wrote. -/
def written (w : Work) (a : NextArgs) : List Octets := if (next w a).1.io.status=.ok then [(next w a).2] else []

/-- The fragments calls wrote, in their order. -/
def fragments (w : Work) (ns : List NextArgs) : List Octets := outputs stepNext written w ns

/-- Fragments written one after the other between two contexts. -/
abbrev Cuts (h : Octets) : Ctx → List Octets → Ctx → Prop := Cutter.Cuts Ctx.done Ctx.advance (Fragment h)

section Calls

variable {h : Octets} {mtu : ℕ} {w : Work} {a : NextArgs}

/-- A call writes the fragment the cursor stands on and moves behind it, or nothing. -/
theorem next_turn (ho : Open h mtu w.ctx) (a : NextArgs) :
    Cutter.Turn Ctx.done Ctx.advance w.ctx (next w a).1.ctx (w.ctx.lenNow≤a.cap) ((next w a).1.io.status=.ok)
      ((next w a).1.io.err=.done) (next w a).2 (w.ctx.emit a.out) := by
  have hop : ¬w.ctx.opened=false := by
    rw [ho.opened]
    exact nofun
  have hn : next w a=_ := (if_pos ho.ready).trans (if_neg hop)
  exact .of_guards (fun r : Work×Octets => r.1.ctx) (fun r => r.1.io.status=.ok) (fun r => r.1.io.err=.done) Prod.snd hn
    ⟨nofun,rfl,rfl⟩ ⟨nofun,rfl,nofun⟩ ⟨rfl,rfl,rfl,nofun⟩

theorem lawful (h : Octets) (mtu : ℕ) :
    Cutter.Lawful stepNext written Work.ctx (fun c a => c.lenNow≤a.cap) Ctx.done Ctx.advance (Fragment h) (Open h mtu) :=
  .of_turns (fun _ a ho => next_turn ho a) (fun _ a ho hd => ho.emit hd a.out) fun _ ho hd => ho.advance hd

/-- Units of data that are not written, one more for a datagram without data. -/
def Ctx.left (c : Ctx) : ℕ := if c.done then 0 else (c.dataLen-c.cursor)/8+1

theorem Open.left_advance {c : Ctx} (ho : Open h mtu c) (hd : c.done=false) : c.advance.left < c.left := by
  obtain ⟨-,hc⟩ := ho.chunkNow hd
  unfold Ctx.left
  rw [hd,if_neg Bool.false_ne_true]
  split_ifs with hdn
  · exact succ_pos _
  have hl : ¬c.dataLen ≤ c.cursor+c.chunkNow := fun hle => hdn (decide_eq_true hle)
  show (c.dataLen-(c.cursor+c.chunkNow))/8+1<_
  omega

theorem run_finishes (ho : Open h mtu w.ctx) (ns : List NextArgs)
    (hns : w.ctx.left≤(ns.filter fun n => mtu≤n.cap).length) : (run stepNext w ns).ctx.done := by
  have hdn : ∀ c : Ctx,c.done → c.left=0 := fun c hc => if_pos hc
  refine (lawful h mtu).run_finishes (fun c hc => ?_) hdn (fun c hc hd => hc.left_advance hd)
    (fun c a hc hd hr => (hc.chunkNow hd).1.trans (of_decide_eq_true hr)) ho ns hns
  unfold Ctx.left at hc
  split_ifs at hc with hd
  exact hd

end Calls

/-- The octets of a fragment, in the datagram it is of. -/
def pieceOf (f : Octets) : Piece := ⟨Ip4.fragOffsetBytes f,Ip4.payloadLen f,Ip4.mf f⟩

/-- A fragment by itself. -/
structure PartOf (h : Octets) (mtu : ℕ) (f : Octets) : Prop where
  fits : Ip4.totalLen f≤ mtu
  valid : Ip4.verify f (Ip4.totalLen f)
  ident : Ip4.ident f=Ip4.ident h
  proto : Ip4.proto f=Ip4.proto h
  src : Ip4.src f=Ip4.src h
  dst : Ip4.dst f=Ip4.dst h
  header : Ip4.hdrLen f≤Ip4.hdrLen h
  /-- It begins at a unit, and is whole units when more follow. -/
  aligned : 8 ∣ Ip4.fragOffsetBytes f ∧ (Ip4.mf f → 8 ∣ Ip4.payloadLen f)

/-- Fragments that together are the datagram, or the part of one that it was. -/
structure Split (h : Octets) (mtu : ℕ) (fs : List Octets) : Prop where
  parts : ∀ f∈fs,PartOf h mtu f
  /-- Each begins where the one before ends; More Fragments is set on all but the last, and on that as on the original. -/
  follow : Follow (Ip4.mf h) (Ip4.fragOffsetBytes h) (fs.map pieceOf)
  disjoint : (fs.map pieceOf).Pairwise fun p q => p.stop≤q.first
  data : (fs.map Ip4.payload).flatten=Ip4.payload h
  /-- All the options are on the first, those with the copied flag on the others. -/
  first : ∀ f∈fs.head?,Ip4.options f=Ip4.options h
  rest : ∀ f∈fs.tail,∀ os,Lists (Ip4.options h) os → Lists (Ip4.options f) (os.filter copied)

section Splits

variable {h : Octets} {mtu : ℕ} {c c' : Ctx} {fs : List Octets}

theorem Fragment.payloadLen {f : Octets} (hf : Fragment h c f) : payloadLen f=c.chunkNow := by
  unfold Ip4.payloadLen
  rw [hf.totalLen,hf.hdrLen]
  exact Nat.add_sub_cancel_left _ _

theorem Cuts.index_pos (hc : Cuts h c fs c') (ho : Open h mtu c) (hi : c.index≠0) (hs : c.split) :
    ∀ f∈fs,∀ os,Lists (options h) os → Lists (options f) (os.filter copied) := by
  induction hc with
  | nil c => exact fun f hf => (not_mem_nil hf).elim
  | @cons c c' f fs hd hf hr ih =>
    intro g hg
    rcases mem_cons.1 hg with rfl|hg
    · exact hf.rest hi
    by_cases hd' : c.advance.done=false
    · refine ih (ho.advance hd) (fun hz => ?_) hs g hg
      obtain ⟨-,-,hin,hzr⟩ := (ho.advance hd).between hs hd'
      obtain ⟨-,-,hindex',-⟩ := ho.between hs hd
      obtain ⟨-,hct⟩ := ho.chunkNow hd
      have hcr : c.cursor+c.chunkNow=0 := hzr hz
      omega
    · cases hr with
      | nil => cases hg
      | cons hd'' _ _ => exact (hd' hd'').elim

theorem Fragment.part {f : Octets} (hf : Fragment h c f) (ho : Open h mtu c) (hd : c.done=false)
    (hu : Ip4.mf f → 8 ∣ Ip4.payloadLen f) : PartOf h mtu f := by
  obtain ⟨hl,-⟩ := ho.chunkNow hd
  refine ⟨by rw [hf.totalLen]; exact hl,by rw [hf.totalLen]; exact hf.valid,hf.ident,hf.proto,hf.src,hf.dst,?_,
    ⟨_,mul_comm _ 8⟩,hu⟩
  obtain ⟨h20,-⟩ := ho.lengths
  rw [hf.hdrLen]
  unfold Ctx.hdrNow
  split_ifs with hw
  · exact ho.hdrLen.le
  have hs : c.split := by
    cases hs : c.split with
    | true => rfl
    | false =>
      rw [hs] at hw
      exact (hw rfl).elim
  rw [ho.hdr2Len hs]
  exact (reducedLen_le h h20).2.1

theorem Cuts.split (hc : Cuts h c fs c') (ho : Open h mtu c) (hd : c.done=false) (hd' : c'.done) :
    (∀ f∈fs,PartOf h mtu f ∧ (c.split → 0<payloadLen f)) ∧ Follow (mf h) (fragOffsetBytes h+c.cursor) (fs.map pieceOf) ∧
      (fs.map payload).flatten=(h.drop (hdrLen h+c.cursor)).span (c.dataLen-c.cursor) := by
  induction hc with
  | nil c => cases hd.symm.trans hd'
  | @cons c c' f fs _ hf hr ih =>
    obtain ⟨-,hct⟩ := ho.chunkNow hd
    have hp := hf.payloadLen
    have hu : c.cursor%8=0 := by
      cases hs : c.split with
      | false => rw [(ho.alone hs hd).1]
      | true => exact (ho.between hs hd).2.1
    have hfr : fragOffsetBytes f=fragOffsetBytes h+c.cursor := by
      rw [fragOffsetBytes_eq,fragOffsetBytes_eq,hf.units,Ctx.unitsNow,ho.units]
      omega
    have hps : c.split → 0<payloadLen f := by
      intro hs
      obtain ⟨hlt,-⟩ := ho.between hs hd
      rw [hp]
      omega
    by_cases he : c.cursor+c.chunkNow=c.dataLen
    · -- the last one: nothing is written behind it
      have hdn : c.advance.done := decide_eq_true he.ge
      have hn := hr.eq_nil hdn
      have hmf : mf f=mf h := by
        rw [hf.mf,Ctx.moreNow,if_neg (by omega),ho.omf]
      subst hn
      refine ⟨fun g hg => ?_,⟨hfr,hmf⟩,?_⟩
      · rw [mem_singleton.1 hg]
        refine ⟨hf.part ho hd fun hm => ?_,hps⟩
        have hw := ho.whole (hmf ▸ hm)
        have hdt := ho.dataLen
        rw [hp]
        omega
      · rw [map_singleton,flatten_singleton,hf.payload]
        congr 1
        omega
    obtain ⟨h8,hmd,hlt,hs⟩ := hct.resolve_left he
    obtain ⟨ha,hfl,hdt⟩ := ih (ho.advance hd) (decide_eq_false (by omega)) hd'
    have hmf : mf f := by
      rw [hf.mf,Ctx.moreNow,if_pos hlt]
    refine ⟨fun g hg => ?_,Follow.cons hfr hmf ?_,?_⟩
    · rcases mem_cons.1 hg with rfl|hg
      · refine ⟨hf.part ho hd fun _ => ?_,hps⟩
        rw [hp]
        exact dvd_of_mod_eq_zero hmd
      · exact ha g hg
    · have hst : (pieceOf f).stop=fragOffsetBytes h+(c.cursor+c.chunkNow) := by
        show fragOffsetBytes f+payloadLen f=_
        rw [hfr,hp,add_assoc]
      rw [hst]
      exact hfl
    · rw [map_cons,flatten_cons,hf.payload,hdt]
      show _++(h.drop (hdrLen h+(c.cursor+c.chunkNow))).span (c.dataLen-(c.cursor+c.chunkNow))=_
      rw [←add_assoc,←drop_drop h (hdrLen h+c.cursor),←span_add]
      congr 1
      omega

theorem Cuts.whole (hc : Cuts h c fs c') (ho : Open h mtu c) (hd : c.done=false) (hcr : c.cursor=0) (hi : c.index=0) (hd' : c'.done) :
    Split h mtu fs ∧ (c.split → ∀ f∈fs,0<payloadLen f) := by
  obtain ⟨ha,hfl,hdt⟩ := hc.split ho hd hd'
  rw [hcr,add_zero] at hfl hdt
  refine ⟨⟨fun f hf => (ha f hf).1,hfl,hfl.order.2,?_,?_,?_⟩,fun hs f hf => (ha f hf).2 hs⟩
  · rw [hdt,ho.dataLen]
    rfl
  · cases hc with
    | nil c => exact nofun
    | cons hd hf hr =>
      intro g hg
      obtain rfl := Option.some.inj hg
      exact hf.first hi
  · cases hc with
    | nil c => exact nofun
    | cons _ hf hr =>
      intro g hg
      -- a datagram that is not cut has one fragment
      have hop := ho.advance hd
      cases hr with
      | nil => cases hg
      | cons hd2 hf2 hrest2 =>
        have hs : c.split := by
          by_contra hno
          obtain ⟨-,hct⟩ := ho.chunkNow hd
          have hl : ¬c.dataLen ≤ c.cursor+c.chunkNow := of_decide_eq_false hd2
          rcases hct with he|⟨-,-,-,hs⟩
          · omega
          · exact hno hs
        have hne : c.advance.index≠0 := by
          show (c.index+1)%2^16≠0
          omega
        exact Cuts.index_pos (.cons hd2 hf2 hrest2) hop hne hs g hg

end Splits

open Ip4Reass (HoldArgs Call)

/-- A call gives a reassembler the octets of a fragment, whatever lies behind them. -/
def Carries (a : HoldArgs) (f : Octets) : Prop := (∀ i<Ip4.totalLen f,a.hdr i=f i) ∧ Ip4.totalLen f≤a.len

/-- What a call gives to a reassembler. -/
def given : Call → Option HoldArgs
  | .hold a => some a
  | _ => none

section Gathering

variable {h : Octets} {mtu : ℕ} {fs : List Octets} {as : List HoldArgs}

theorem Carries.fields {a : HoldArgs} {f : Octets} (hc : Carries a f) (hp : PartOf h mtu f) :
    verify a.hdr a.len ∧ Ip4.SameFields a.hdr f ∧ a.piece=pieceOf f ∧ Ip4Reass.keyOf a.hdr=Ip4Reass.keyOf h := by
  obtain ⟨h20,hle,-⟩ := verify_bounds hp.valid
  have hs : Ip4.SameFields a.hdr f := sameFields fun i hi => hc.1 i (by omega)
  refine ⟨verify_congr hp.valid (fun i hi => hc.1 i (by omega)) hc.2,hs,?_,?_⟩
  · unfold HoldArgs.piece pieceOf Ip4Reass.dataLen payloadLen
    rw [fragOffsetBytes_eq,hs.fragUnits,hs.totalLen,hs.hdrLen,hs.mf]
    rfl
  · unfold Ip4Reass.keyOf
    rw [hs.src,hs.dst,hs.proto,hs.ident,hp.src,hp.dst,hp.proto,hp.ident]

theorem Split.endOf_eq (hs : Split h mtu fs) (ho : fragOffsetBytes h=0) : Pieces.endOf (fs.map pieceOf)=payloadLen h := by
  have hsm : ((fs.map pieceOf).map Piece.len).sum=(fs.map payload).flatten.length := by
    rw [length_flatten,map_map,map_map]
    refine congrArg sum (map_congr_left fun f _ => ?_)
    exact (length_span).symm
  rw [hs.follow.endOf_eq,ho,zero_add,hsm,hs.data]
  exact length_span

theorem Split.several (hs : Split h mtu fs) (hlt : mtu<totalLen h) : 2≤fs.length := by
  have hfl := hs.follow
  match fs,hs,hfl with
  | [],_,hno => cases hno
  | [f],hs,_ =>
    have hp := hs.parts f (mem_singleton_self f)
    have ho := congrArg length (hs.first f rfl)
    have hd := congrArg length hs.data
    rw [map_singleton,flatten_singleton] at hd
    unfold options at ho
    unfold payload payloadLen at hd
    rw [length_span,length_span] at ho hd
    have hf := verify_bounds hp.valid
    have hft := hp.fits
    omega
  | f::g::fs,_,_ => exact le_add_left 2 fs.length

theorem Split.tiling (hs : Split h mtu fs) (hv : verify h (totalLen h)) (hlt : mtu<totalLen h)
    (hps : ∀ f∈fs,0<payloadLen f) (hmf : mf h=false) (ho : fragOffsetBytes h=0) (hc : List.Forall₂ Carries as fs) :
    Ip4Reass.Tiling (Ip4Reass.keyOf h) as ∧ as.map HoldArgs.piece=fs.map pieceOf := by
  have hm : ∀ a∈as,∃ f∈fs,Carries a f := by
    intro a ha
    obtain ⟨⟨i,hi⟩,rfl⟩ := get_of_mem ha
    have hi' : i<fs.length := hc.length_eq ▸ hi
    exact ⟨fs.get ⟨i,hi'⟩,get_mem _ _,hc.get hi hi'⟩
  have hpc : as.map HoldArgs.piece=fs.map pieceOf := by
    have hpr := hs.parts
    clear hs hps hm
    induction hc with
    | nil => rfl
    | @cons a f as fs hon _ ih =>
      rw [map_cons,map_cons,(hon.fields (hpr f mem_cons_self)).2.2.1,ih fun g hg => hpr g (mem_cons_of_mem f hg)]
  have ht : TilesFrom 0 (fs.map pieceOf) := by
    have hfl := hs.follow
    rw [hmf,ho] at hfl
    refine hfl.tiles fun p hp => ?_
    obtain ⟨f,hf,rfl⟩ := mem_map.1 hp
    exact hps f hf
  refine ⟨⟨hpc ▸ ht,by rw [hc.length_eq]; exact hs.several hlt,fun a ha => ?_,fun a ha => ?_,fun a ha => ?_⟩,hpc⟩
  · obtain ⟨f,hf,hcr⟩ := hm a ha
    exact (hcr.fields (hs.parts f hf)).1
  · obtain ⟨f,hf,hcr⟩ := hm a ha
    have hp := hs.parts f hf
    obtain ⟨-,hsm,hpi,-⟩ := hcr.fields hp
    have hst : (pieceOf f).stop≤Pieces.endOf (fs.map pieceOf) := ht.tiles.high _ (mem_map_of_mem hf)
    have hstop' : a.piece.stop=fragOffsetBytes a.hdr+Ip4Reass.dataLen a.hdr := rfl
    have hb := verify_bounds hv
    have hmx := totalLen_lt h
    have hh := hp.header
    have hl : payloadLen h=totalLen h-hdrLen h := rfl
    rw [hs.endOf_eq ho,←hpi,hstop'] at hst
    rw [hsm.hdrLen]
    omega
  · obtain ⟨f,hf,hcr⟩ := hm a ha
    exact (hcr.fields (hs.parts f hf)).2.2.2

theorem Split.gathers (hs : Split h mtu fs) (hv : verify h (totalLen h)) (hlt : mtu<totalLen h)
    (hps : ∀ f∈fs,0<payloadLen f) (hmf : mf h=false) (ho : fragOffsetBytes h=0) {cfg : Config} {u : Ip4Reass.Work}
    {before : List Call} {b : HoldArgs} {gs : List Octets} (hpr : gs.Perm fs) (hr : gs.length ≤ cfg.ip4ReassFrags)
    (hrw : 0 < cfg.ip4ReassDatagrams) (hcr : List.Forall₂ Carries (before.filterMap given++[b]) gs)
    (he : Along (Ip4Reass.step cfg) (Ip4Reass.Early cfg) (Ip4Reass.clear u) before) :
    Along (Ip4Reass.step cfg) (fun v c => ∀ b,c=.hold b →
        (Ip4Reass.hold cfg v b).io.status=.ok ∧ (Ip4Reass.hold cfg v b).io.complete=false) (Ip4Reass.clear u) before ∧
      let v := Ip4Reass.hold cfg (run (Ip4Reass.step cfg) (Ip4Reass.clear u) before) b
      v.io.status=.ok ∧ v.io.complete ∧ v.io.totalLen=payloadLen h := by
  -- the calls in offset order of what they carry
  obtain ⟨as,hto,hin⟩ : ∃ as,List.Forall₂ Carries as fs ∧ (before.filterMap given++[b]).Perm as := by
    have hf := List.Forall₂.flip hcr
    obtain ⟨as,h1,h2⟩ := perm_comp_forall₂ hpr.symm hf
    exact ⟨as,h1.flip,h2.symm⟩
  obtain ⟨htl,hp⟩ := hs.tiling hv hlt hps hmf ho hto
  have hl : as.length ≤ cfg.ip4ReassFrags := by
    rw [←hin.length_eq,hcr.length_eq]
    exact hr
  have hk : ∀ c∈before.filterMap given++[b],Ip4Reass.keyOf c.hdr=Ip4Reass.keyOf h := fun c hc => htl.key c (hin.subset hc)
  have hh : ∀ c,Call.hold c∈before → Ip4Reass.keyOf c.hdr=Ip4Reass.keyOf h := fun c hc =>
    hk c (mem_append_left _ (mem_filterMap.2 ⟨.hold c,hc,rfl⟩))
  have how : before.filterMap (Call.own? (Ip4Reass.keyOf h))=before.filterMap given := by
    refine filterMap_congr fun c hc => ?_
    cases c with
    | hold a => exact if_pos (hh a hc)
    | next i => rfl
    | release i => rfl
    | reclaim => rfl
    | tick now => rfl
  have hrs := Ip4Reass.clear_gathers cfg u htl hl hrw (hk b (mem_append_right _ (mem_singleton_self b)))
    (how ▸ hin) hh he
  rw [hp,hs.endOf_eq ho] at hrs
  exact hrs

end Gathering

/-- Whatever `begin` accepts: calls with room write every fragment within as many as the data has units, and together
they are the datagram. Given in any order to empty tables with room before the deadline, each is held and the last
completes it. -/
theorem begin_fragments_gather (w : Work) (a : BeginArgs) (h : (begin w a).io.status=.ok) :
    (∀ ns,Ip4.payloadLen a.dgram/8+1≤(ns.filter fun n : NextArgs => a.mtu≤n.cap).length →
        ∀ n,(next (run stepNext (begin w a) ns) n).1.io.err=.done) ∧
      ∀ ns n,(next (run stepNext (begin w a) ns) n).1.io.err=.done → Split a.dgram a.mtu (fragments (begin w a) ns) ∧
          (Ip4.mf a.dgram=false → Ip4.fragOffsetBytes a.dgram=0 → a.mtu<Ip4.totalLen a.dgram →
            ∀ (cfg : Config) (u : Ip4Reass.Work) (before : List Call) (b : HoldArgs) (gs : List Octets),
              gs.Perm (fragments (begin w a) ns) → gs.length ≤ cfg.ip4ReassFrags → 0 < cfg.ip4ReassDatagrams →
              List.Forall₂ Carries (before.filterMap given++[b]) gs →
              Along (Ip4Reass.step cfg) (Ip4Reass.Early cfg) (Ip4Reass.clear u) before →
              Along (Ip4Reass.step cfg) (fun v c => ∀ b,c=.hold b →
                  (Ip4Reass.hold cfg v b).io.status=.ok ∧ (Ip4Reass.hold cfg v b).io.complete=false) (Ip4Reass.clear u) before ∧
                let v := Ip4Reass.hold cfg (run (Ip4Reass.step cfg) (Ip4Reass.clear u) before) b
                v.io.status=.ok ∧ v.io.complete=true ∧ v.io.totalLen=Ip4.payloadLen a.dgram) := by
  obtain ⟨hopen,hd,hcur,hindex⟩ := begin_open h
  refine ⟨fun ns hns n => ?_,fun ns n hn => ?_⟩
  · obtain ⟨-,hlast⟩ := (lawful _ _).run_cuts hopen ns
    have hleft : (begin w a).ctx.left=payloadLen a.dgram/8+1 := by
      unfold Ctx.left
      rw [hd,if_neg nofun,hcur,hopen.dataLen,Nat.sub_zero]
    exact (next_turn hlast _).ended.2 (run_finishes hopen ns (hleft ▸ hns))
  · obtain ⟨hcuts,hlast⟩ := (lawful _ _).run_cuts hopen ns
    obtain ⟨hsplit,hpos⟩ := Cuts.whole hcuts hopen hd hcur hindex ((next_turn hlast _).ended.1 hn)
    refine ⟨hsplit,fun hmf hoff hlt cfg u before b gs hperm hroom hrows hcar hearly => ?_⟩
    exact hsplit.gathers hopen.valid hlt (hpos (hopen.split.2 hlt)) hmf hoff hperm hroom hrows hcar hearly

/-- A datagram of a hundred octets is cut for an MTU of 68. -/
theorem begin_fragments_gather_hundred :
    let w : Work := clear ⟨⟨.err,.none,false,false,0,0,0,0,0,0⟩,⟨false,Octets.zero,0,0,0,0,0,0,0,0,false,false,false,false⟩⟩
    let a : BeginArgs := ⟨ofList [69,0,0,100,0,1,0,0,64,17,102,134,10,0,0,1,10,0,0,2],100,68⟩
    (begin w a).io.status=.ok ∧ (begin w a).io.split=true ∧
      Split a.dgram 68 (fragments (begin w a) (replicate 11 ⟨Octets.zero,68⟩)) := by
  intro w a
  have hok : (begin w a).io.status=.ok := by decide
  obtain ⟨hends,hall⟩ := begin_fragments_gather w a hok
  have hn : payloadLen a.dgram/8+1≤
      ((replicate 11 (⟨Octets.zero,68⟩ : NextArgs)).filter fun n : NextArgs => a.mtu≤n.cap).length := by decide
  exact ⟨hok,by decide,(hall _ ⟨Octets.zero,0⟩ (hends _ hn _)).1⟩

end IdemIp.Ip4Frag
