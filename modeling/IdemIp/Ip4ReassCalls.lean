import IdemIp.Ip4ReassTables
import IdemIp.StepRun

/-!
# What a call of the IPv4 reassembler does to its tables

A call leaves the tables as they were, files its fragment, closes rows, or hands
one fragment of a closed row back. Closing a row gives its holes back and keeps
its fragments. Each of these keeps the tables in order.
-/

namespace IdemIp.Ip4Reass

open IndexChain Slots Gaps Pieces List Nat Work Store Ip4 Function Datagram

/-- A call of the unit after `clear`. -/
inductive Call
  | hold (a : HoldArgs)
  | next (i : ℕ)
  | release (i : ℕ)
  | reclaim
  | tick (nowMs : BitVec 32)

def step (cfg : Config) (w : Work) : Call → Work
  | .hold a => hold cfg w a
  | .next i => next cfg w i
  | .release i => release cfg w i
  | .reclaim => reclaim cfg w
  | .tick nowMs => tick cfg w nowMs

/-- The headers behind the entries after a call. -/
def Call.files (c : Call) (w u : Work) (mem : Memory) : Memory :=
  match c with
  | .hold a => filedIn w u a.hdr mem
  | _ => mem

/-- Make one call, and keep the headers behind the entries. -/
def Store.step (cfg : Config) (s : Store) (c : Call) : Store :=
  ⟨Ip4Reass.step cfg s.work c,c.files s.work (Ip4Reass.step cfg s.work c) s.mem⟩

/-- A buffer identifier: source, destination, protocol and identification. -/
abbrev Key := BitVec 32×BitVec 32×BitVec 8×BitVec 16

/-- The buffer identifier of a header. -/
def keyOf (h : Octets) : Key := (Ip4.src h,Ip4.dst h,Ip4.proto h,Ip4.ident h)

/-- The buffer identifier of a row. -/
def Datagram.bufId (r : Datagram) : Key := (r.src,r.dst,r.proto,r.id)

theorem Datagram.named_iff {r : Datagram} {h : Octets} : r.named h ↔ r.bufId=keyOf h := by
  unfold named bufId keyOf
  simp only [Bool.and_eq_true,beq_iff_eq,Prod.mk.injEq,and_assoc]

section Moves

variable {cfg : Config} {w u v : Work} {mem : Memory} {fs hs : ℕ → List ℕ} {d : ℕ}

/-- The tables are the same but for where the walks of rows stand. -/
structure Alike (w u : Work) : Prop where
  ready : u.ready=w.ready
  held : u.held=w.held
  frag : u.frag=w.frag
  hole : u.hole=w.hole
  rows : ∀ k,∃ c,u.row k={w.row k with cursor := c}

theorem Alike.of_io (w : Work) (io : Io) : Alike w {w with io := io} := ⟨rfl,rfl,rfl,rfl,fun k => ⟨(w.row k).cursor,rfl⟩⟩

theorem Alike.trans (h : Alike w u) (h' : Alike u v) : Alike w v := by
  refine ⟨h'.ready.trans h.ready,h'.held.trans h.held,h'.frag.trans h.frag,h'.hole.trans h.hole,fun k => ?_⟩
  obtain ⟨c,hc⟩ := h.rows k
  obtain ⟨c',hc'⟩ := h'.rows k
  exact ⟨c',by rw [hc',hc]⟩

theorem Alike.state (h : Alike w u) (k : ℕ) : (u.row k).state=(w.row k).state := by
  obtain ⟨c,hc⟩ := h.rows k
  rw [hc]

theorem Gathers.congr {r' : Datagram} {ps : List Piece} {gs : List Gap} (h : Gathers r ps gs)
    (ht : r'.totalLen=r.totalLen) (hf : r'.firstFrag=r.firstFrag) (hst : r'.state=r.state) : Gathers r' ps gs := by
  obtain ⟨h1,h2,h3,h4,h5,h6,h7⟩ := h
  exact ⟨h1,h2,h3,by rwa [ht],by rwa [ht],by rwa [hf],by rwa [hst]⟩

theorem Ok.alike (h : Ok cfg ⟨w,mem⟩ fs hs) (ha : Alike w u) : Ok cfg ⟨u,mem⟩ fs hs := by
  have hp : piece ⟨u,mem⟩=piece ⟨w,mem⟩ := by
    unfold piece
    rw [ha.frag]
  have hg : u.gaps=w.gaps := by
    unfold gaps gap
    rw [ha.hole]
  refine ⟨?_,?_,fun k hk hu => ?_,fun k hk hu => ?_,h.room,fun k hk hu => ?_⟩
  · refine h.frags.congr (fun k => ?_) (fun k => ?_) ha.held (fun i _ => ?_) fun i _ => ?_
    · show ((u.row k).state != .free)=_
      rw [ha.state k]
    · obtain ⟨c,hc⟩ := ha.rows k
      rw [hc]
    · rw [ha.frag]
    · show (u.frag i).next=_
      rw [ha.frag]
      rfl
  · refine h.holes.congr (fun k => ?_) (fun k => ?_) rfl (fun i _ => ?_) fun i _ => ?_
    · show ((u.row k).state != .free)=_
      rw [ha.state k]
    · obtain ⟨c,hc⟩ := ha.rows k
      rw [hc]
    · show ((u.hole i).state != .free)=_
      rw [ha.hole]
    · show (u.hole i).next=_
      rw [ha.hole]
      rfl
  · exact h.full k hk (by rwa [←ha.state k])
  · exact h.closed k hk (by rwa [←ha.state k])
  · have ho := h.rows k hk (by rwa [←ha.state k])
    obtain ⟨c,hc⟩ := ha.rows k
    rw [hp,hg]
    exact ho.congr (by rw [hc]) (by rw [hc]) (by rw [hc])

theorem Call.files_eq (c : Call) (h : u.frag=w.frag) (mem : Memory) : c.files w u mem=mem := by
  cases c with
  | hold a =>
    funext i
    show (if (w.frag i).state==.free && (u.frag i).state != .free then a.hdr else mem i)=mem i
    rw [h]
    cases hs : (w.frag i).state==.free
    · rfl
    · rw [bne,hs]
      rfl
  | next i => rfl
  | release i => rfl
  | reclaim => rfl
  | tick nowMs => rfl

/-- The holes once rows gave theirs back. -/
def without (hs : ℕ → List ℕ) (ds : List ℕ) : ℕ → List ℕ := fun k => if k∈ds then [] else hs k

variable (cfg)

/-- Rows in use were closed: they gave their holes back and keep their fragments. -/
structure Shut (w u : Work) (hs : ℕ → List ℕ) (ds : List ℕ) : Prop where
  ready : u.ready=w.ready
  held : u.held=w.held
  frag : u.frag=w.frag
  live : ∀ k∈ds,k < cfg.ip4ReassDatagrams ∧ (w.row k).state≠.free
  /-- They wait for their descriptors or refuse what follows. -/
  shut : ∀ k∈ds,∃ st,(st=.reclaim ∨ st=.abandoned) ∧
    u.row k={w.row k with holeHead := none8,cursor := none8,state := st}
  rows : ∀ k,k∉ds → u.row k=w.row k
  holes : HolesOk cfg u (without hs ds)
  other : ∀ i,(∀ k∈ds,i∉hs k) → u.hole i=w.hole i

variable {cfg}

theorem without_nil (hs : ℕ → List ℕ) : without hs []=hs := by
  funext k
  exact if_neg not_mem_nil

theorem without_cons (hs : ℕ → List ℕ) (d : ℕ) (ds : List ℕ) : without hs (d::ds)=without (without hs [d]) ds := by
  funext k
  unfold without
  by_cases hk : k∈ds
  · rw [if_pos (mem_cons_of_mem d hk),if_pos hk]
  rw [if_neg hk]
  by_cases hkd : k=d
  · rw [if_pos (hkd ▸ mem_cons_self),if_pos (mem_singleton.2 hkd)]
  · rw [if_neg fun hm => (mem_cons.1 hm).elim hkd hk,if_neg fun hm => hkd (mem_singleton.1 hm)]

theorem without_singleton (hs : ℕ → List ℕ) (d : ℕ) : without hs [d]=update hs d [] := by
  funext k
  unfold without
  by_cases hk : k=d
  · rw [hk,update_self,if_pos (mem_singleton_self d)]
  · rw [update_of_ne hk,if_neg fun hm => hk (mem_singleton.1 hm)]

variable {ds : List ℕ}

theorem Shut.used (h : Shut cfg w u hs ds) (k : ℕ) : (u.row k).state=.free ↔ (w.row k).state=.free := by
  by_cases hk : k∈ds
  · obtain ⟨st,hst,hr⟩ := h.shut k hk
    have hlv : st≠.free := by
      rcases hst with rfl|rfl <;> decide
    refine iff_of_false ?_ (h.live k hk).2
    rw [hr]
    exact hlv
  · rw [h.rows k hk]

theorem Shut.fragHead (h : Shut cfg w u hs ds) (k : ℕ) : (u.row k).fragHead=(w.row k).fragHead := by
  by_cases hk : k∈ds
  · obtain ⟨st,-,hr⟩ := h.shut k hk
    rw [hr]
  · rw [h.rows k hk]

theorem Ok.shut (h : Ok cfg ⟨w,mem⟩ fs hs) (hc : Shut cfg w u hs ds) : Ok cfg ⟨u,mem⟩ fs (without hs ds) := by
  have hp : piece ⟨u,mem⟩=piece ⟨w,mem⟩ := by
    unfold piece
    rw [hc.frag]
  -- a closed row neither gathers nor is complete
  have ho : ∀ k,(u.row k).state=.holding ∨ (u.row k).state=.complete → k∉ds := by
    intro k hu hk
    obtain ⟨st,hst,hr⟩ := hc.shut k hk
    rw [hr] at hu
    rcases hst with rfl|rfl <;> exact hu.elim nofun nofun
  refine ⟨?_,hc.holes,fun k hk hu => ?_,fun k hk hu => ?_,fun k hk => ?_,fun k hk hu => ?_⟩
  · refine h.frags.congr (fun k => ?_) hc.fragHead hc.held (fun i _ => ?_) fun i _ => ?_
    · rw [Bool.eq_iff_iff,bne_iff_ne,bne_iff_ne,ne_eq,ne_eq,hc.used k]
    · show ((u.frag i).state != .free)=_
      rw [hc.frag]
    · show (u.frag i).next=_
      rw [hc.frag]
      rfl
  · exact h.full k hk fun hf => hu ((hc.used k).2 hf)
  · unfold without
    split_ifs with hin
    · rfl
    · rw [show u.row k=w.row k from hc.rows k hin] at hu
      exact h.closed k hk hu
  · unfold without
    split_ifs with hin
    · exact zero_le _
    · exact h.room k hk
  · have hin := ho k hu
    rw [show u.row k=w.row k from hc.rows k hin] at hu ⊢
    have hg : u.gaps (without hs ds k)=w.gaps (hs k) := by
      unfold without
      rw [if_neg hin]
      refine map_congr_left fun i hi => ?_
      have hot : ∀ j∈ds,i∉hs j := by
        intro j hj hij
        have hjk := h.holes.kept.row_unique (hc.live j hj).1 hk hij hi
        exact hin (hjk ▸ hj)
      unfold gap
      rw [hc.other i hot]
    rw [hp,hg]
    exact h.rows k hk hu

/-- The row `freeHoles` leaves, put in another state. -/
theorem freeHoles_shut (h : HolesOk cfg w hs) (hd : d < cfg.ip4ReassDatagrams) (hu : (w.row d).state≠.free) {st : State}
    (hst : st=.reclaim ∨ st=.abandoned) :
    Shut cfg w ((freeHoles cfg w d).setRow d {(freeHoles cfg w d).row d with state := st}) hs [d] := by
  obtain ⟨hok,ho⟩ := freeHoles_worked h hd hu
  have hsl : (freeHoles cfg w d).row d={w.row d with holeHead := none8,cursor := none8} :=
    update_self _ _ _
  have hlv : st≠.free := by
    rcases hst with rfl|rfl <;> decide
  have hne : ∀ k,k≠d → ((freeHoles cfg w d).setRow d {(freeHoles cfg w d).row d with state := st}).row k=
      (freeHoles cfg w d).row k := fun k hk => update_of_ne hk _ _
  have hr : ((freeHoles cfg w d).setRow d {(freeHoles cfg w d).row d with state := st}).row d=
      {w.row d with holeHead := none8,cursor := none8,state := st} := by
    refine (update_self _ _ _).trans ?_
    rw [hsl]
  refine ⟨rfl,rfl,rfl,fun k hk => ?_,fun k hk => ⟨st,hst,?_⟩,fun k hk => ?_,?_,fun i hi => ?_⟩
  · rw [mem_singleton.1 hk]
    exact ⟨hd,hu⟩
  · rw [mem_singleton.1 hk]
    exact hr
  · have hkd : k≠d := fun hkd => hk (mem_singleton.2 hkd)
    exact (hne k hkd).trans (update_of_ne hkd _ _)
  · rw [without_singleton]
    refine hok.congr (fun k => ?_) (fun k => ?_) rfl (fun i _ => rfl) fun i _ => rfl
    · by_cases hk : k=d
      · rw [hk,hr,hsl]
        exact (bne_iff_ne.2 hlv).trans (bne_iff_ne.2 hu).symm
      · rw [hne k hk]
    · by_cases hk : k=d
      · rw [hk,hr,hsl]
      · rw [hne k hk]
  · exact ho i (hi d (mem_singleton_self d))

/-- `flush` closes a row; a row in use holds a fragment, so it is not free at once. -/
theorem flush_shut (h : Ok cfg ⟨w,mem⟩ fs hs) (hd : d < cfg.ip4ReassDatagrams) (hu : (w.row d).state≠.free) :
    Shut cfg w (flush cfg w d) hs [d] ∧ ((flush cfg w d).row d).state=.reclaim := by
  have hsl : (freeHoles cfg w d).row d={w.row d with holeHead := none8,cursor := none8} :=
    update_self _ _ _
  have hh : ((freeHoles cfg w d).row d).fragHead≠none8 := by
    rw [hsl]
    intro hn
    have hc := h.frags.chain d hd (bne_iff_ne.2 hu)
    refine h.full d hd hu ((hc.nil_iff frags_le_none).1 ?_)
    rw [show (w.row d).fragHead=none8 from hn]
    exact frags_le_none
  unfold flush
  dsimp only
  rw [if_neg hh]
  exact ⟨freeHoles_shut h.holes hd hu (.inl rfl),by unfold setRow; simp only [update_self]⟩

theorem Shut.cons (h : Shut cfg w u hs [d]) (h' : Shut cfg u v (without hs [d]) ds) (hd : d∉ds) : Shut cfg w v hs (d::ds) := by
  refine ⟨h'.ready.trans h.ready,h'.held.trans h.held,h'.frag.trans h.frag,fun k hk => ?_,fun k hk => ?_,fun k hk => ?_,?_,
    fun i hi => ?_⟩
  · rcases mem_cons.1 hk with rfl|hk
    · exact h.live k (mem_singleton_self k)
    · exact ⟨(h'.live k hk).1,fun hf => (h'.live k hk).2 ((h.used k).2 hf)⟩
  · rcases mem_cons.1 hk with rfl|hkds
    · rw [h'.rows k hd]
      exact h.shut k (mem_singleton_self k)
    · have hkd : k≠d := by
        rintro rfl
        exact hd hkds
      rw [←h.rows k fun hm => hkd (mem_singleton.1 hm)]
      exact h'.shut k hkds
  · have hkd : k∉[d] := fun hm => hk (mem_singleton.1 hm ▸ mem_cons_self)
    rw [h'.rows k fun hm => hk (mem_cons_of_mem d hm),h.rows k hkd]
  · rw [without_cons]
    exact h'.holes
  · rw [h'.other i fun k hk hin => ?_]
    · exact h.other i fun k hk => hi k (mem_singleton.1 hk ▸ mem_cons_self)
    · unfold without at hin
      split_ifs at hin
      · cases hin
      · exact hi k (mem_cons_of_mem d hk) hin

theorem flushes_shut (h : Ok cfg ⟨w,mem⟩ fs hs) (hnd : ds.Nodup)
    (hlv : ∀ k∈ds,k < cfg.ip4ReassDatagrams ∧ (w.row k).state≠.free) :
    Shut cfg w (ds.foldl (flush cfg) w) hs ds ∧ ∀ k∈ds,((ds.foldl (flush cfg) w).row k).state=.reclaim := by
  induction ds generalizing w hs with
  | nil =>
    refine ⟨⟨rfl,rfl,rfl,fun k hk => (not_mem_nil hk).elim,fun k hk => (not_mem_nil hk).elim,fun k _ => rfl,?_,
      fun i _ => rfl⟩,fun k hk => (not_mem_nil hk).elim⟩
    rw [without_nil]
    exact h.holes
  | cons d ds ih =>
    obtain ⟨hd,hds⟩ := nodup_cons.1 hnd
    obtain ⟨hlt,hu⟩ := hlv d mem_cons_self
    obtain ⟨ho,hstate⟩ := flush_shut h hlt hu
    obtain ⟨hr,hst⟩ := ih (h.shut ho) hds fun k hk =>
      have hk' := hlv k (mem_cons_of_mem d hk)
      ⟨hk'.1,fun hf => hk'.2 ((ho.used k).1 hf)⟩
    refine ⟨ho.cons hr hd,fun k hk => ?_⟩
    rcases mem_cons.1 hk with rfl|hk
    · rw [foldl_cons,hr.rows k hd]
      exact hstate
    · exact hst k hk

end Moves

section Seats

variable {cfg : Config} {w v : Work} {mem : Memory} {fs hs : ℕ → List ℕ} {d : ℕ} {hl : List ℕ} {a : HoldArgs}

theorem seat_held (h : Ok cfg ⟨w,mem⟩ fs hs) (hd : d < cfg.ip4ReassDatagrams) (hst : (w.row d).state=.holding) :
    Seat cfg w w mem fs hs d (hs d) :=
  ⟨hd,hst,rfl,rfl,rfl,fun _ _ => rfl,fun _ _ _ => rfl,h.frags.chain d hd (bne_iff_ne.2 (by rw [show _=_ from hst]; decide)),
    by rw [update_eq_self]; exact h.holes,h.room d hd,h.rows d hd (.inl hst)⟩

theorem gathers_nil (ht : r.totalLen=0) (hst : r.state=.holding) : Gathers r [] [⟨0,65535⟩] := by
  refine ⟨Tiled.empty 65535,pairwise_singleton _ _,fun p hp => (not_mem_nil hp).elim,
    iff_of_false (fun hne => hne ht) fun ⟨p,hp,_⟩ => not_mem_nil hp,fun hne => absurd ht hne,
    fun ⟨p,hp,_⟩ => (not_mem_nil hp).elim,iff_of_false ?_ fun ⟨⟨p,hp,_⟩,_⟩ => not_mem_nil hp⟩
  rw [hst]
  decide

theorem rowFor_opens (h : Ok cfg ⟨w,mem⟩ fs hs) (hr : w.held < cfg.ip4ReassFrags) (hfn : find cfg w a.hdr=none)
    (hrw : firstIndex cfg.ip4ReassDatagrams (fun i => (w.row i).state==.free)=some d) :
    ∃ v i,rowFor cfg w a=(v,some (d,true)) ∧ Seat cfg w v mem fs hs d [i] ∧ v.row d=(w.row d).taken.opened cfg a i := by
  obtain ⟨hfr,hd,-⟩ := firstIndex_some.1 hrw
  have hst : (w.row d).state=.free := by simpa using hfr
  have hfs : fs d=[] := h.frags.free d hd (by rw [show (mk w mem).work.row d=w.row d from rfl,hst]; rfl)
  have hhs : hs d=[] := h.closed d hd (by rw [show (mk w mem).work.row d=w.row d from rfl,hst]; decide)
  have hlt := holes_lt h hr (h.room d hd)
  rw [update_eq_self] at hlt
  obtain ⟨i,hi,hif,ha⟩ := holeAlloc_some h.holes hlt 0 0xFFFF
  have halloc' : holeAlloc cfg (w.setRow d (w.row d).taken) 0 0xFFFF=
      some ((w.setRow d (w.row d).taken).setHole i ⟨0,0xFFFF,none8,.holding⟩,i) := by
    unfold holeAlloc at ha ⊢
    cases hf : firstIndex cfg.ip4ReassHoles fun i => (w.hole i).state==.free with
    | none =>
      rw [show (mk w mem).work=w from rfl,hf] at ha
      cases ha
    | some j =>
      rw [show (mk w mem).work=w from rfl,hf] at ha
      obtain ⟨-,rfl⟩ := Prod.mk.inj (Option.some.inj ha)
      rw [show (w.setRow d (w.row d).taken).hole=w.hole from rfl,hf]
      rfl
  obtain ⟨v,hv⟩ : ∃ v,((w.setRow d (w.row d).taken).setHole i ⟨0,0xFFFF,none8,.holding⟩).setRow d
    (((w.setRow d (w.row d).taken).row d).opened cfg a i)=v := ⟨_,rfl⟩
  have hvr : v.row d=(w.row d).taken.opened cfg a i := by
    rw [←hv]
    refine (update_self _ _ _).trans ?_
    rw [show (w.setRow d (w.row d).taken).row d=(w.row d).taken from update_self _ _ _]
  have hvn : ∀ k,k≠d → v.row k=w.row k := by
    intro k hk
    rw [←hv]
    exact (update_of_ne hk _ _).trans (update_of_ne hk _ _)
  have hvh : v.hole i=⟨0,0xFFFF,none8,.holding⟩ := by
    rw [←hv]
    exact update_self _ _ _
  have hvt : ∀ k,k≠i → v.hole k=w.hole k := by
    intro k hk
    rw [←hv]
    exact update_of_ne hk _ _
  have hh : HolesBy cfg v ((flat cfg.ip4ReassDatagrams hs).length+1) (update hs d ([]++i::[])) := by
    refine h.holes.insert hd hi (by rw [hif]; rfl) hhs (by rw [hhs]; exact Chain.nil) (fun k hk => ?_) ?_ (fun k hk => ?_)
      (fun _ => ?_) (fun hne => (hne rfl).elim) (fun k _ => ?_) (fun k hk _ => ?_) ?_ nofun
    · rw [hvn k hk]
    · rw [hvr]
      rfl
    · rw [hvn k hk]
    · rw [hvr]
      rfl
    · by_cases hk : k=i
      · rw [hk,update_self,hvh]
        rfl
      · rw [update_of_ne hk,hvt k hk]
    · have hki : k≠i := by
        rintro rfl
        rw [show (mk w mem).work.hole k=w.hole k from rfl] at hif hk
        rw [hif] at hk
        cases hk
      unfold holeNext
      rw [hvt k hki]
    · unfold holeNext
      rw [hvh]
      rfl
  refine ⟨v,i,?_,⟨hd,?_,?_,?_,?_,hvn,fun k _ hk => hvt k ?_,?_,hh.ok,le_add_left 1 _,?_⟩,hvr⟩
  · unfold rowFor rowAlloc
    rw [hfn,hrw]
    dsimp only [Option.map_some]
    rw [halloc']
    rw [←hv]
    rfl
  · rw [hvr]
    rfl
  · rw [←hv]
    rfl
  · rw [←hv]
    rfl
  · rw [←hv]
    rfl
  · rintro rfl
    exact hk hif
  · rw [hfs,hvr]
    exact Chain.nil
  · rw [hfs,gaps,map_singleton,gap,hvh,hvr]
    exact gathers_nil rfl rfl

variable (h : Seat cfg w v mem fs hs d hl)
include h

theorem Seat.list : v.frags cfg d=fs d := by
  have hn : v.fragNext=w.fragNext := by
    unfold fragNext
    rw [h.frag]
  unfold frags
  rw [hn]
  exact walk_chain frags_le_none h.chain (h.chain.length_le frags_le_none)

theorem Seat.endOf_le (n : ℕ) : endOf cfg v d≤n ↔ ∀ q∈(fs d).map (piece ⟨w,mem⟩),q.stop≤n := by
  unfold Ip4Reass.endOf
  rw [foldl_max_le,h.list,h.frag]
  simp only [zero_le,true_and,mem_map,forall_exists_index,and_imp,forall_apply_eq_imp_iff₂]
  rfl

/-- A fragment all of which was missing is held if it agrees with the length known, that is with the pieces. -/
theorem Seat.fits_iff (hln : 0<dataLen a.hdr) (htp : a.piece.stop≤65535) :
    misfits cfg v d (fragOffsetBytes a.hdr+dataLen a.hdr) (mf a.hdr)=false ∧
        fills cfg v d (fragOffsetBytes a.hdr) (fragOffsetBytes a.hdr+dataLen a.hdr-1)=dataLen a.hdr ↔
      Agrees 65535 ((fs d).map (piece ⟨w,mem⟩)) a.piece := by
  have hln : 0<a.piece.len := hln
  change misfits cfg v d a.piece.stop a.piece.more=false ∧ fills cfg v d a.piece.first (a.piece.stop-1)=a.piece.len ↔ _
  generalize a.piece=p at *
  have hst : p.stop=p.first+p.len := rfl
  have hg := h.gathers
  have hf := fills_eq h.holes h.row_lt (by rw [h.state]; decide) (p.first) (p.stop-1)
  rw [update_self] at hf
  have hal : filled (p.first) (p.stop-1) (v.gaps hl)=p.stop-1+1-p.first ↔ _ := hg.tiled.apart.filled_all_iff
  rw [show p.stop-1+1-p.first=p.len by omega] at hal
  have he := h.endOf_le (p.stop)
  have hh : (∀ x,p.first≤x → x≤p.stop-1 → Missing (v.gaps hl) x) ↔ ∀ x,p.Has x → Missing (v.gaps hl) x := by
    refine forall_congr' fun x => ⟨fun hx hin => ?_,fun hx h1 h2 => hx ⟨h1,?_⟩⟩
    · have hlt : x<p.stop := hin.2
      exact hx hin.1 (by omega)
    · show x<p.stop
      omega
  rw [hf,hal,hh]
  unfold misfits
  simp only [Bool.or_eq_false_iff,Bool.and_eq_false_imp,Bool.and_eq_true,Bool.not_eq_true',bne_iff_ne,bne_eq_false_iff_eq,decide_eq_false_iff_not,
    not_lt,and_imp]
  constructor
  · rintro ⟨⟨⟨hle,hsm⟩,hc⟩,hms⟩
    exact hg.agrees_of_fits htp hln hms (fun hm => he.1 (hc hm)) fun hm ht => hsm hm ht
  · intro ha
    refine ⟨⟨⟨fun ht => ?_,fun hm ht => ?_⟩,fun hm => he.2 (ha.last hm).1⟩,hg.missing_of_agrees ha⟩
    · rw [hg.ends ht]
      exact ha.within
    · rw [hg.ends ht]
      exact (ha.last hm).2 (hg.last.1 ht)

theorem Seat.takes (hln : 0<dataLen a.hdr) (ha : Agrees 65535 ((fs d).map (piece ⟨w,mem⟩)) a.piece) (opened : Bool) :
    takeRow cfg v d opened a=takeInto cfg v d opened a := by
  obtain ⟨hft,hf⟩ := (h.fits_iff hln ha.le_top).2 ha
  unfold takeRow
  rw [h.state,if_neg nofun,hft,if_neg nofun,hf,if_neg hln.ne',if_neg (fun hne => hne rfl)]

omit h

theorem takeRow_cases (h : Ok cfg ⟨w,mem⟩ fs hs) (hd : d < cfg.ip4ReassDatagrams) (hln : 0<dataLen a.hdr)
    (ht : a.piece.stop≤65535) (hst : (w.row d).state=.holding ∨ (w.row d).state=.abandoned) :
    takeRow cfg w d false a=w ∨ takeRow cfg w d false a=w.reportRow d ∨ takeRow cfg w d false a=(abandon cfg w d).reportRow d ∨
      (w.row d).state=.holding ∧ Agrees 65535 ((fs d).map (piece ⟨w,mem⟩)) a.piece ∧
        takeRow cfg w d false a=takeInto cfg w d false a := by
  rcases hst with hst|hst
  · have hse := seat_held h hd hst
    by_cases ha : Agrees 65535 ((fs d).map (piece ⟨w,mem⟩)) a.piece
    · exact .inr (.inr (.inr ⟨hst,ha,hse.takes hln ha false⟩))
    have hft := fun hf => ha ((hse.fits_iff hln ht).1 hf)
    unfold takeRow
    rw [hst,if_neg nofun]
    simp only [Bool.false_eq_true,if_false]
    split_ifs with h1 h2 h3
    · exact .inl rfl
    · exact .inr (.inl rfl)
    · exact .inr (.inr (.inl rfl))
    · exact (hft ⟨Bool.eq_false_of_not_eq_true h1,of_not_not h3⟩).elim
  · refine .inr (.inl ?_)
    unfold takeRow
    rw [hst,if_pos rfl]

end Seats

section Changes

/-- What the unit asks of a fragment before it looks for its row. -/
def HoldArgs.Proper (a : HoldArgs) : Prop :=
  Ip4.verify a.hdr a.len ∧ ¬(Ip4.fragOffsetBytes a.hdr=0 ∧ Ip4.mf a.hdr=false) ∧
    ¬(dataLen a.hdr=0 ∨ Ip4.mf a.hdr ∧ dataLen a.hdr%8≠0) ∧
    Ip4.fragOffsetBytes a.hdr+dataLen a.hdr+Ip4.hdrLen a.hdr≤65535

/-- A call concerns a row. -/
def Call.Hits (w : Work) (k : ℕ) : Call → Prop
  | .hold a => (w.row k).named a.hdr
  | .release i => k=i
  | .tick nowMs => reached nowMs (w.row k).deadlineMs
  | _ => False

/-- A call that may move a descriptor did not. -/
def Call.Silent (u : Work) : Call → Prop
  | .hold _ => u.io.status≠.ok
  | .reclaim => u.io.status≠.ok
  | _ => True

variable (cfg : Config)

/-- There is no entry for a fragment, or no row. -/
def Full (w : Work) (a : HoldArgs) : Prop :=
  cfg.ip4ReassFrags≤w.held ∨ find cfg w a.hdr=none ∧ ∀ i < cfg.ip4ReassDatagrams,(w.row i).state≠.free

/-- A closed row handed its first fragment back; with its last one gone it is free. -/
structure Popped (w u : Work) (fs : ℕ → List ℕ) (d f : ℕ) (rest : List ℕ) : Prop where
  row_lt : d < cfg.ip4ReassDatagrams
  state : (w.row d).state=.reclaim
  list : fs d=f::rest
  ready : u.ready=w.ready
  held : u.held=w.held-1
  hole : u.hole=w.hole
  frag : u.frag=update w.frag f (w.frag f).freed
  row : u.row=update w.row d ((w.row d).popped (w.frag f).next)
  status : u.io.status=.ok
  index : u.io.index=d
  desc : u.io.desc=(w.frag f).desc

/-- What a call did, with the lists of fragments and holes after it. -/
inductive Change (w : Work) (mem : Memory) (fs hs : ℕ → List ℕ) (c : Call) (u : Work) :
    (ℕ → List ℕ) → (ℕ → List ℕ) → Prop
  | alike (h : Alike w u) (hio : c.Silent u) : Change w mem fs hs c u fs hs
  | shut {ds : List ℕ} (h : Shut cfg w u hs ds) (hits : ∀ k∈ds,c.Hits w k)
      (gone : (∀ a,c≠.hold a) → ∀ k∈ds,(u.row k).state=.reclaim) (hio : c.Silent u) :
      Change w mem fs hs c u fs (without hs ds)
  | filed {a : HoldArgs} {v : Work} {hl : List ℕ} {d fi : ℕ} {pre post m : List ℕ} (hc : c=.hold a)
      (was : find cfg w a.hdr=none ∧ (w.row d).state=.free ∨ find cfg w a.hdr=some d ∧ v.row=w.row)
      (named : (v.row d).named a.hdr) (seat : Seat cfg w v mem fs hs d hl)
      (agrees : Agrees 65535 ((fs d).map (Store.piece ⟨w,mem⟩)) a.piece) (len : 0<dataLen a.hdr)
      (h : Filed cfg w u a fs hs d fi (v.row d) (v.gaps hl) pre post m) :
      Change w mem fs hs c u (update fs d (pre++fi::post)) (update hs d m)
  | popped {d f : ℕ} {rest : List ℕ} (hc : c=.reclaim) (h : Popped cfg w u fs d f rest) :
      Change w mem fs hs c u (update fs d rest) hs

variable {cfg} {w u : Work} {mem : Memory} {fs hs : ℕ → List ℕ} {a : HoldArgs}

theorem find_some {d : ℕ} (hf : find cfg w h=some d) :
    d < cfg.ip4ReassDatagrams ∧ ((w.row d).state=.holding ∨ (w.row d).state=.abandoned) ∧ (w.row d).named h := by
  obtain ⟨hp,hlt,-⟩ := firstIndex_some.1 hf
  rw [Bool.and_eq_true,Bool.or_eq_true,beq_iff_eq,beq_iff_eq] at hp
  exact ⟨hlt,hp⟩

theorem opened_named {r : Datagram} {i : ℕ} : (r.opened cfg a i).named a.hdr := by
  simp [named,opened]

section

variable (h : Ok cfg ⟨w,mem⟩ fs hs)

include h

/-- A fragment within its bounds, not a datagram by itself, is held in its row if it agrees with what that holds. -/
theorem take_files (hp : a.Proper) (hrm : w.held < cfg.ip4ReassFrags)
    (hrw : (∃ d,find cfg w a.hdr=some d ∧ (w.row d).state=.holding ∧ Agrees 65535 ((fs d).map (piece ⟨w,mem⟩)) a.piece) ∨
      find cfg w a.hdr=none ∧ ∃ i < cfg.ip4ReassDatagrams,(w.row i).state=.free) :
    ∃ fs' hs',Change cfg w mem fs hs (.hold a) (take cfg w a) fs' hs' ∧ (take cfg w a).io.status=.ok := by
  obtain ⟨hv,hw,hbd,hb⟩ := hp
  have hln : 0<dataLen a.hdr := Nat.pos_of_ne_zero fun hz => hbd (.inl hz)
  have ht : a.piece.stop≤65535 := by
    have hstop : a.piece.stop=fragOffsetBytes a.hdr+dataLen a.hdr := rfl
    omega
  unfold take
  rw [if_neg (by simp [hv]),if_neg hw,if_neg hbd,if_neg (not_lt.2 hb),if_neg (not_le.2 hrm)]
  rcases hrw with ⟨d,hf,hst,ha⟩|⟨hf,hfr⟩
  · obtain ⟨hd,-,hn⟩ := find_some hf
    have hse := seat_held h hd hst
    have hr : rowFor cfg w a=(w,some (d,false)) := by
      unfold rowFor
      rw [hf]
    rw [hr]
    dsimp only
    rw [hse.takes hln ha]
    obtain ⟨fi,pre,post,m,hfl⟩ := hse.filed h false hrm hln
    exact ⟨_,_,.filed rfl (.inr ⟨hf,rfl⟩) hn hse ha hln hfl,hfl.status⟩
  cases hrw : firstIndex cfg.ip4ReassDatagrams fun i => (w.row i).state==.free with
  | none =>
    obtain ⟨i,hi,hfi⟩ := hfr
    have hno := firstIndex_none.1 hrw i hi
    rw [hfi] at hno
    cases hno
  | some d =>
    obtain ⟨v,i,hr,hse,hvr⟩ := rowFor_opens h hrm hf hrw
    obtain ⟨hfree',hd,-⟩ := firstIndex_some.1 hrw
    have hstate : (w.row d).state=.free := by simpa using hfree'
    have hfs : fs d=[] := h.frags.free d hd (by rw [show (mk w mem).work.row d=w.row d from rfl,hstate]; rfl)
    -- nothing is he, so whatever comes agrees with it
    have ha : Agrees 65535 ((fs d).map (piece ⟨w,mem⟩)) a.piece := by
      rw [hfs]
      exact ⟨fun q hq => (not_mem_nil hq).elim,ht,ht.trans (le_succ _),fun _ =>
        ⟨fun q hq => (not_mem_nil hq).elim,fun ⟨q,hq,_⟩ => (not_mem_nil hq).elim⟩⟩
    rw [hr]
    dsimp only
    rw [hse.takes hln ha]
    obtain ⟨fi,pre,post,m,hfl⟩ := hse.filed h true hrm hln
    exact ⟨_,_,.filed rfl (.inl ⟨hf,hstate⟩) (by rw [hvr]; exact opened_named) hse ha hln hfl,hfl.status⟩

/-- Every call of `take` is one of the changes; it is busy only when a table of the caller's is full. -/
theorem take_change (he : w.io.status=.err) (a : HoldArgs) :
    (∃ fs' hs',Change cfg w mem fs hs (.hold a) (take cfg w a) fs' hs') ∧ ((take cfg w a).io.status=.busy → Full cfg w a) := by
  have hq : ∀ x : Work,Alike w x → x.io.status=.err →
      (∃ fs' hs',Change cfg w mem fs hs (.hold a) x fs' hs') ∧ (x.io.status=.busy → Full cfg w a) := by
    intro x hx hs'
    refine ⟨⟨fs,hs,.alike hx ?_⟩,fun hb => absurd (hb.symm.trans hs') (by decide)⟩
    show x.io.status≠.ok
    rw [hs']
    decide
  have hbs : Full cfg w a → (∃ fs' hs',Change cfg w mem fs hs (.hold a) (w.status .busy) fs' hs') ∧
      ((w.status .busy).io.status=.busy → Full cfg w a) :=
    fun hf => ⟨⟨fs,hs,.alike (.of_io w _) (show Status.busy≠.ok by decide)⟩,fun _ => hf⟩
  have hsh : ∀ (x : Work) (io : Io) (ds : List ℕ),Shut cfg w x hs ds → (∀ k∈ds,(w.row k).named a.hdr) →
      io.status=.err → (∃ fs' hs',Change cfg w mem fs hs (.hold a) {x with io := io} fs' hs') ∧
        (io.status=.busy → Full cfg w a) := by
    intro x io ds hx hin hs'
    refine ⟨⟨fs,without hs ds,.shut ⟨hx.ready,hx.held,hx.frag,hx.live,hx.shut,hx.rows,hx.holes,hx.other⟩ hin
      (fun hno => (hno a rfl).elim) ?_⟩,
      fun hb => absurd (hb.symm.trans hs') (by decide)⟩
    show io.status≠.ok
    rw [hs']
    decide
  by_cases hp : a.Proper
  · obtain ⟨hv,hw,hbd,hbn⟩ := hp
    by_cases hrm : w.held < cfg.ip4ReassFrags
    · have hfl := fun hrw => take_files h ⟨hv,hw,hbd,hbn⟩ hrm hrw
      have hdn : (∃ fs' hs',Change cfg w mem fs hs (.hold a) (take cfg w a) fs' hs' ∧ (take cfg w a).io.status=.ok) →
          (∃ fs' hs',Change cfg w mem fs hs (.hold a) (take cfg w a) fs' hs') ∧
            ((take cfg w a).io.status=.busy → Full cfg w a) :=
        fun ⟨fs',hs',hc,hok⟩ => ⟨⟨fs',hs',hc⟩,fun hb => absurd (hb.symm.trans hok) (by decide)⟩
      have hln : 0<dataLen a.hdr := Nat.pos_of_ne_zero fun hz => hbd (.inl hz)
      have ht : a.piece.stop≤65535 := by
        have hstop : a.piece.stop=fragOffsetBytes a.hdr+dataLen a.hdr := rfl
        omega
      cases hf : find cfg w a.hdr with
      | some d =>
        obtain ⟨hd,hst,hn⟩ := find_some hf
        have hu : (w.row d).state≠.free := by
          rcases hst with hst|hst <;> rw [hst] <;> decide
        by_cases hag : (w.row d).state=.holding ∧ Agrees 65535 ((fs d).map (piece ⟨w,mem⟩)) a.piece
        · exact hdn (hfl (.inl ⟨d,hf,hag.1,hag.2⟩))
        have hr : rowFor cfg w a=(w,some (d,false)) := by
          unfold rowFor
          rw [hf]
        have hcs := takeRow_cases h hd hln ht hst
        unfold take
        rw [if_neg (by simp [hv]),if_neg hw,if_neg hbd,if_neg (not_lt.2 hbn),if_neg (not_le.2 hrm),hr]
        dsimp only
        rcases hcs with heq|heq|heq|⟨hst',ha,-⟩
        · rw [heq]
          exact hq w ⟨rfl,rfl,rfl,rfl,fun k => ⟨_,rfl⟩⟩ he
        · rw [heq]
          exact hq _ (.of_io w _) he
        · rw [heq]
          exact hsh _ _ [d] (freeHoles_shut h.holes hd hu (.inr rfl)) (fun k hk => mem_singleton.1 hk ▸ hn) he
        · exact (hag ⟨hst',ha⟩).elim
      | none =>
        by_cases hfr : ∃ i < cfg.ip4ReassDatagrams,(w.row i).state=.free
        · exact hdn (hfl (.inr ⟨hf,hfr⟩))
        have hnn : firstIndex cfg.ip4ReassDatagrams (fun i => (w.row i).state==.free)=none :=
          firstIndex_none.2 fun i hi => beq_eq_false_iff_ne.2 fun hfi => hfr ⟨i,hi,hfi⟩
        have hr : rowFor cfg w a=(w,none) := by
          unfold rowFor rowAlloc
          rw [hf,hnn]
          rfl
        unfold take
        rw [if_neg (by simp [hv]),if_neg hw,if_neg hbd,if_neg (not_lt.2 hbn),if_neg (not_le.2 hrm),hr]
        exact hbs (.inr ⟨hf,fun i hi hfi => hfr ⟨i,hi,hfi⟩⟩)
    · unfold take
      rw [if_neg (by simp [hv]),if_neg hw,if_neg hbd,if_neg (not_lt.2 hbn),if_pos (not_lt.1 hrm)]
      exact hbs (.inl (not_lt.1 hrm))
  · -- what is not proper is refused, and a whole datagram closes the rows with its identifier
    have hsl := hq w ⟨rfl,rfl,rfl,rfl,fun k => ⟨_,rfl⟩⟩ he
    unfold take
    dsimp only
    split_ifs with h1 h2 h3 h4 h5
    · exact hsl
    · have hlv : ∀ k∈(range cfg.ip4ReassDatagrams).filter fun i =>
          (w.row i).state != .free && (w.row i).state != .reclaim && (w.row i).named a.hdr,
          k < cfg.ip4ReassDatagrams ∧ (w.row k).state≠.free ∧ (w.row k).named a.hdr := by
        intro k hk
        obtain ⟨hr,hk⟩ := mem_filter.1 hk
        rw [Bool.and_eq_true,Bool.and_eq_true,bne_iff_ne] at hk
        exact ⟨mem_range.1 hr,hk.1.1,hk.2⟩
      have hs' := (flushes_shut h (nodup_range.filter _) fun k hk => ⟨(hlv k hk).1,(hlv k hk).2.1⟩).1
      have hio : (flushBufid cfg w a.hdr).1.io=w.io := by
        unfold flushBufid
        dsimp only
        generalize (range cfg.ip4ReassDatagrams).filter _=ds
        induction ds using reverseRecOn with
        | nil => rfl
        | append_singleton ds d ih =>
          rw [foldl_append]
          exact ih
      split
      · have hrs := hsh _ w.io _ hs' (fun k hk => (hlv k hk).2.2) he
        rw [←hio] at hrs
        exact hrs
      · exact hsh _ _ _ hs' (fun k hk => (hlv k hk).2.2) (by rw [hio]; exact he)
    · exact hsl
    · exact hsl
    · exact (hp ⟨by simpa using h1,h2,h3,not_lt.1 h4⟩).elim
    · exact (hp ⟨by simpa using h1,h2,h3,not_lt.1 h4⟩).elim

variable {c : Call} {fs' hs' : ℕ → List ℕ}

omit h in
theorem Change.of_io {io : Io} (h : Change cfg {w with io := io} mem fs hs c u fs' hs') :
    Change cfg w mem fs hs c u fs' hs' := by
  cases h with
  | alike h hio => exact .alike ((Alike.of_io w io).trans h) hio
  | shut h hi gone hio =>
    refine .shut ⟨h.ready,h.held,h.frag,h.live,h.shut,h.rows,h.holes,h.other⟩ (fun k hk => ?_) gone hio
    have hk' := hi k hk
    cases c <;> exact hk'
  | filed hc was named seat agrees len h =>
    exact .filed hc was named ⟨seat.row_lt,seat.state,seat.ready,seat.frag,seat.held,seat.rows,seat.other,seat.chain,
      seat.holes,seat.room,seat.gathers⟩ agrees len ⟨h.slot_lt,h.free,h.split,h.before,h.after,h.ready,h.held,h.frags,h.entry,
      h.others,h.rows,h.row,h.holes,h.gaps,h.other,h.status,h.index,h.complete,h.totalLen⟩
  | popped hc h =>
    exact .popped hc ⟨h.row_lt,h.state,h.list,h.ready,h.held,h.hole,h.frag,h.row,h.status,h.index,h.desc⟩

theorem hold_change {a : HoldArgs} :
    (∃ fs' hs',Change cfg w mem fs hs (.hold a) (hold cfg w a) fs' hs') ∧ ((hold cfg w a).io.status=.busy → Full cfg w a) := by
  unfold hold
  split_ifs
  · exact ⟨⟨fs,hs,.alike (.of_io w _) (show Status.err≠.ok by decide)⟩,nofun⟩
  obtain ⟨⟨fs',hs',hc⟩,hb⟩ := take_change (h.alike (.of_io w {w.io with
    status := .err,complete := false,totalLen := 0,index := none8,state := .free})) rfl a
  exact ⟨⟨fs',hs',hc.of_io⟩,hb⟩

/-- A proper fragment is held when there is room for it and it agrees with what the row of its datagram holds. -/
theorem hold_files (hrd : w.ready) (hp : a.Proper) (hr : ¬Full cfg w a)
    (hrow : ∀ d,find cfg w a.hdr=some d → (w.row d).state=.holding ∧ Agrees 65535 ((fs d).map (piece ⟨w,mem⟩)) a.piece) :
    ∃ fs' hs',Change cfg w mem fs hs (.hold a) (hold cfg w a) fs' hs' ∧ (hold cfg w a).io.status=.ok := by
  have hh : w.held < cfg.ip4ReassFrags := not_le.1 fun hle => hr (.inl hle)
  have hcs : (∃ d,find cfg w a.hdr=some d ∧ (w.row d).state=.holding ∧ Agrees 65535 ((fs d).map (piece ⟨w,mem⟩)) a.piece) ∨
      find cfg w a.hdr=none ∧ ∃ i < cfg.ip4ReassDatagrams,(w.row i).state=.free := by
    cases hf : find cfg w a.hdr with
    | some d => exact .inl ⟨d,rfl,hrow d hf⟩
    | none =>
      refine .inr ⟨rfl,?_⟩
      by_contra hno
      exact hr (.inr ⟨hf,fun i hi hfr => hno ⟨i,hi,hfr⟩⟩)
  unfold hold
  rw [if_neg (by simp [hrd])]
  obtain ⟨fs',hs',hc,hok⟩ := take_files (h.alike (.of_io w {w.io with
    status := .err,complete := false,totalLen := 0,index := none8,state := .free})) hp hh hcs
  exact ⟨fs',hs',hc.of_io,hok⟩

omit h in
theorem next_alike (cfg : Config) (w : Work) (i : ℕ) : Alike w (next cfg w i) := by
  have hr : ∀ (u : Work) (c : ℕ) (io : Io),Alike u {u.setRow i {u.row i with cursor := c} with io := io} := by
    intro u c io
    refine ⟨rfl,rfl,rfl,rfl,fun k => ?_⟩
    by_cases hk : k=i
    · rw [hk]
      exact ⟨c,update_self _ _ _⟩
    · exact ⟨(u.row k).cursor,update_of_ne hk _ _⟩
  unfold next
  split_ifs
  · exact .of_io w _
  refine (Alike.of_io w
    {w.io with status := .err,off := 0,len := 0,desc := 0,hdrLen := 0,index := none8,state := .free}).trans ?_
  unfold report
  dsimp only
  split
  · exact .of_io _ _
  · split_ifs <;> exact hr _ _ _
  · exact .of_io _ _

theorem release_change (i : ℕ) : ∃ hs',Change cfg w mem fs hs (.release i) (release cfg w i) fs hs' := by
  unfold release
  split_ifs with hin
  · exact ⟨hs,.alike (.of_io w _) trivial⟩
  have hlt : i < cfg.ip4ReassDatagrams := by
    simp at hin
    exact hin.2
  split
  · exact ⟨hs,.alike (.of_io w _) trivial⟩
  · exact ⟨hs,.alike (.of_io w _) trivial⟩
  next hf _ =>
  obtain ⟨hs',hg⟩ :=
    flush_shut (h.alike (.of_io w {w.io with status := .err,index := none8,state := .free})) hlt hf
  exact ⟨_,.shut ⟨hs'.ready,hs'.held,hs'.frag,hs'.live,hs'.shut,hs'.rows,hs'.holes,hs'.other⟩
    (fun k hk => mem_singleton.1 hk) (fun _ k hk => mem_singleton.1 hk ▸ hg) trivial⟩

theorem tick_change {now : BitVec 32} : ∃ hs',Change cfg w mem fs hs (.tick now) (tick cfg w now) fs hs' := by
  unfold tick
  split_ifs
  · exact ⟨hs,.alike (.of_io w _) trivial⟩
  split
  · exact ⟨hs,.alike (.of_io w _) trivial⟩
  next i hi =>
  obtain ⟨hp,hlt,-⟩ := firstIndex_some.1 hi
  rw [Bool.and_eq_true] at hp
  have hu : (w.row i).state≠.free := by
    intro hf
    rw [hf] at hp
    exact absurd hp.1 (by decide)
  obtain ⟨hs',hg⟩ := flush_shut
    (h.alike (.of_io w {w.io with status := .err,index := none8,state := .free,src := 0,fragZero := false})) hlt hu
  refine ⟨_,.shut ⟨hs'.ready,hs'.held,hs'.frag,hs'.live,hs'.shut,hs'.rows,hs'.holes,hs'.other⟩ (fun k hk => ?_)
    (fun _ k hk => mem_singleton.1 hk ▸ hg) trivial⟩
  rw [mem_singleton.1 hk]
  exact hp.2

/-- A reclaim hands the first fragment of a closed row back, or finds no such row. -/
theorem reclaim_cases (hr : w.ready) :
    (∃ d f rest,Popped cfg w (reclaim cfg w) fs d f rest) ∨ Alike w (reclaim cfg w) ∧ (reclaim cfg w).io.status=.busy ∧
        ∀ d < cfg.ip4ReassDatagrams,(w.row d).state≠.reclaim := by
  have hh : ∀ d < cfg.ip4ReassDatagrams,(w.row d).state=.reclaim → ∃ f rest,fs d=f::rest ∧ (w.row d).fragHead=f ∧
      f≠none8 := by
    intro d hd hst
    have hu : (w.row d).state≠.free := by
      rw [hst]
      decide
    have hc := h.frags.chain d hd (bne_iff_ne.2 hu)
    cases hl : fs d with
    | nil => exact (h.full d hd hu hl).elim
    | cons f rest =>
      rw [hl] at hc
      exact ⟨f,rest,rfl,hc.1,(hc.2.1.trans_le frags_le_none).ne⟩
  unfold reclaim
  rw [if_neg (by simp [hr])]
  cases hi : firstIndex cfg.ip4ReassDatagrams fun i => (w.row i).state==.reclaim && (w.row i).fragHead != none8 with
  | some d =>
    obtain ⟨hp,hd,-⟩ := firstIndex_some.1 hi
    rw [Bool.and_eq_true,beq_iff_eq] at hp
    obtain ⟨f,rest,hl,hf,-⟩ := hh d hd hp.1
    refine .inl ⟨d,f,rest,hd,hp.1,hl,rfl,rfl,rfl,?_,?_,rfl,rfl,?_⟩
    · rw [←hf]
      rfl
    · rw [←hf]
      rfl
    · rw [←hf]
  | none =>
    refine .inr ⟨.of_io w _,rfl,fun d hd hst => ?_⟩
    obtain ⟨f,rest,-,hf,hne⟩ := hh d hd hst
    have hno := firstIndex_none.1 hi d hd
    rw [hst,hf] at hno
    simp [hne] at hno

theorem reclaim_change : ∃ fs',Change cfg w mem fs hs .reclaim (reclaim cfg w) fs' hs := by
  by_cases hr : w.ready
  · rcases reclaim_cases h hr with ⟨d,f,rest,hp⟩|⟨ha,hst,-⟩
    · exact ⟨_,.popped rfl hp⟩
    · refine ⟨fs,.alike ha ?_⟩
      show (reclaim cfg w).io.status≠.ok
      rw [hst]
      decide
  · unfold reclaim
    rw [if_pos (by simpa using hr)]
    exact ⟨fs,.alike (.of_io w _) (show Status.err≠.ok by decide)⟩

theorem step_change (c : Call) : ∃ fs' hs',Change cfg w mem fs hs c (step cfg w c) fs' hs' := by
  cases c with
  | hold a => exact (hold_change h).1
  | next i => exact ⟨fs,hs,.alike (next_alike cfg w i) trivial⟩
  | release i =>
    obtain ⟨hs',hc⟩ := release_change h i
    exact ⟨fs,hs',hc⟩
  | reclaim =>
    obtain ⟨fs',hc⟩ := reclaim_change h
    exact ⟨fs',hs,hc⟩
  | tick nowMs =>
    obtain ⟨hs',hc⟩ := tick_change h
    exact ⟨fs,hs',hc⟩

variable {f : ℕ} {rest : List ℕ}

theorem Popped.rows {d : ℕ} (hp : Popped cfg w u fs d f rest) :
    (w.frag f).next=rest.head?.getD none8 ∧ (u.row d).fragHead=(w.frag f).next ∧
      (u.row d).state=(if rest=[] then .free else .reclaim) ∧ ∀ k,k≠d → u.row k=w.row k := by
  have hc := h.frags.chain d hp.row_lt (bne_iff_ne.2 (by rw [show _=_ from hp.state]; decide))
  rw [hp.list] at hc
  have hn : (w.frag f).next=rest.head?.getD none8 := Chain.head_eq hc.2.2
  have hsl : u.row d=(w.row d).popped (w.frag f).next := by
    rw [hp.row]
    exact update_self _ _ _
  refine ⟨hn,?_,?_,fun k hk => by rw [hp.row]; exact update_of_ne hk _ _⟩
  · rw [hsl]
    unfold popped
    split_ifs <;> rfl
  · rw [hsl,hn]
    unfold popped
    cases rest with
    | nil => exact congrArg Datagram.state (if_pos rfl)
    | cons i rest =>
      have hi : i≠none8 := (hc.2.2.2.1.trans_le frags_le_none).ne
      rw [if_neg (show (i::rest).head?.getD none8≠none8 from hi),if_neg (cons_ne_nil i rest)]
      exact hp.state

theorem Ok.popped {d : ℕ} (hp : Popped cfg w u fs d f rest) : Ok cfg ⟨u,mem⟩ (update fs d rest) hs := by
  obtain ⟨hn,hhd,hst,hne⟩ := hp.rows h
  have hd := hp.row_lt
  have hh : hs d=[] := h.closed d hd (by rw [show _=_ from hp.state]; decide)
  have hus : ∀ i,((u.frag i).state != .free)=update (fun i => (w.frag i).state != .free) f false i := by
    intro i
    rw [hp.frag]
    by_cases hi : i=f
    · rw [hi,update_self,update_self]
      rfl
    · rw [update_of_ne hi,update_of_ne hi]
  have hln : ∀ i,i≠f → u.fragNext i=w.fragNext i := by
    intro i hi
    unfold fragNext
    rw [hp.frag,update_of_ne hi]
  refine ⟨?_,⟨h.holes.kept.congr (fun i _ => ?_) fun _ _ => rfl,fun k hk hu => ?_,fun k hk hu => ?_⟩,fun k hk hu => ?_,
    fun k hk hu => ?_,fun k hk => ?_,fun k hk hu => ?_⟩
  · show FragsBy cfg u u.held _
    rw [hp.held]
    cases rest with
    | nil =>
      have hle : w.held-1=w.held-(fs d).length := by rw [hp.list]; rfl
      rw [hle]
      refine h.frags.close hd (fun k hk => by rw [hne k hk]) (fun k hk => by rw [hne k hk]) (by rw [hst]; rfl)
        (fun i _ => ?_) fun i hi => hln i fun hif => hi (by rw [hp.list,hif]; exact mem_singleton_self f)
      rw [hus i,hp.list]
      by_cases hi : i=f
      · rw [hi,update_self,if_pos (mem_singleton_self f)]
      · rw [update_of_ne hi,if_neg fun hm => hi (mem_singleton.1 hm)]
    | cons j rest =>
      exact h.frags.remove hd (bne_iff_ne.2 (by rw [show _=_ from hp.state]; decide)) (show fs d=[]++f::j::rest from hp.list)
        (fun k hk => by rw [hne k hk]) (by rw [hst]; rfl) (fun k hk => by rw [hne k hk]) (fun _ => hhd)
        (fun hno => (hno rfl).elim) (fun i _ => hus i) (fun i _ hi _ => hln i hi) nofun
  · show ((u.hole i).state != .free)=_
    rw [hp.hole]
  · have hli : u.holeNext=w.holeNext := by
      unfold holeNext
      rw [hp.hole]
    rw [hli]
    by_cases hkd : k=d
    · have hc := h.holes.chain d hd (bne_iff_ne.2 (by rw [show _=_ from hp.state]; decide))
      have hsm : (u.row d).holeHead=(w.row d).holeHead := by
        rw [hp.row,update_self]
        unfold Datagram.popped
        split_ifs <;> rfl
      rw [hkd,hsm]
      exact hc
    · rw [show (Store.mk u mem).work.row k=w.row k from hne k hkd] at hu
      rw [hne k hkd]
      exact h.holes.chain k hk hu
  · by_cases hkd : k=d
    · rw [hkd]
      exact hh
    · rw [show (Store.mk u mem).work.row k=w.row k from hne k hkd] at hu
      exact h.holes.free k hk hu
  · by_cases hkd : k=d
    · rw [hkd,update_self]
      rintro rfl
      rw [hkd] at hu
      exact hu hst
    · rw [update_of_ne hkd]
      rw [show (Store.mk u mem).work.row k=w.row k from hne k hkd] at hu
      exact h.full k hk hu
  · by_cases hkd : k=d
    · rw [hkd]
      exact hh
    · rw [show (Store.mk u mem).work.row k=w.row k from hne k hkd] at hu
      exact h.closed k hk hu
  · by_cases hkd : k=d
    · rw [hkd,hh]
      exact zero_le _
    · rw [update_of_ne hkd]
      exact h.room k hk
  · have hkd : k≠d := by
      rintro rfl
      rw [show ((Store.mk u mem).work.row k).state=_ from hst] at hu
      split_ifs at hu <;> exact hu.elim nofun nofun
    rw [show (Store.mk u mem).work.row k=w.row k from hne k hkd] at hu ⊢
    rw [update_of_ne hkd]
    have hpc : (fs k).map (piece ⟨u,mem⟩)=(fs k).map (piece ⟨w,mem⟩) := by
      refine map_congr_left fun i hi => ?_
      have hif : i≠f := by
        rintro rfl
        exact hkd (h.frags.kept.row_unique hk hd hi (by rw [hp.list]; exact mem_cons_self))
      unfold piece
      rw [hp.frag,update_of_ne hif]
    have hg : u.gaps=w.gaps := by
      unfold gaps gap
      rw [hp.hole]
    rw [hpc]
    rw [hg]
    exact h.rows k hk hu

theorem Change.ok (hc : Change cfg w mem fs hs c u fs' hs') : Ok cfg ⟨u,c.files w u mem⟩ fs' hs' := by
  cases hc with
  | alike ha hio =>
    rw [c.files_eq ha.frag]
    exact h.alike ha
  | shut hs hi gone hio =>
    rw [c.files_eq hs.frag]
    exact h.shut hs
  | filed hc was named seat agrees len hf =>
    subst hc
    exact hf.ok h seat agrees len
  | popped hc hp =>
    subst hc
    exact h.popped hp

end

theorem Change.ready (hc : Change cfg w mem fs hs c u fs' hs') : u.ready=w.ready := by
  cases hc with
  | alike ha hio => exact ha.ready
  | shut hs hi gone hio => exact hs.ready
  | filed hc was named seat agrees len hf => exact hf.ready
  | popped hc hp => exact hp.ready

/-- The tables a run from cleared ones can reach. -/
def Reached (cfg : Config) (s : Store) : Prop := s.work.ready ∧ ∃ fs hs,Ok cfg s fs hs

theorem ok_clear (cfg : Config) (w : Work) (mem : Memory) : Ok cfg ⟨clear w,mem⟩ (fun _ => []) fun _ => [] := by
  refine ⟨⟨.empty fun i _ => rfl,fun k _ => nofun,fun k _ _ => rfl⟩,?_,fun k _ hu => absurd rfl hu,
    fun k _ _ => rfl,fun k _ => zero_le _,fun k _ hu => hu.elim nofun nofun⟩
  have he : HolesBy cfg (clear w) 0 fun _ => [] :=
    ⟨.empty fun i _ => rfl,fun k _ => nofun,fun k _ _ => rfl⟩
  exact he.ok

theorem Reached.step {s : Store} (h : Reached cfg s) (c : Call) : Reached cfg (s.step cfg c) := by
  obtain ⟨hr,fs,hs,hok⟩ := h
  obtain ⟨fs',hs',hc⟩ := step_change hok c
  exact ⟨hc.ready.trans hr,fs',hs',hc.ok hok⟩

end Changes

end IdemIp.Ip4Reass
