import IdemIp.Ip4ReassCalls
import Mathlib.Data.List.Sort

/-!
# Fragments of a datagram in any order

Fragments that tile a datagram complete it in any order, whatever else is called in
between, as long as there is room for each and the row is neither released nor
timed out.
-/

namespace IdemIp.Ip4Reass

open IndexChain Slots Gaps Pieces StepRun List Store Function Datagram

/-- A fragment with what a walk reports of it. -/
structure Entry where
  piece : Piece
  (desc hdrLen : ℕ)

def Store.entry (s : Store) (i : ℕ) : Entry := ⟨s.piece i,(s.work.frag i).desc,(s.work.frag i).hdrLen⟩

/-- A fragment that is given. -/
def HoldArgs.entry (a : HoldArgs) : Entry := ⟨a.piece,a.desc,Ip4.hdrLen a.hdr⟩

/-- A row that takes or refuses fragments of a datagram. -/
def Datagram.Live (key : Key) (r : Datagram) : Prop := (r.state=.holding ∨ r.state=.abandoned) ∧ r.bufId=key

section Rows

variable {cfg : Config} {w u : Work} {mem : Memory} {fs hs fs' hs' : ℕ → List ℕ} {c : Call} {d : ℕ} {key : Key}

variable {r : Datagram} {gs : List Gap}

theorem Gathers.ascending {ps : List Piece} (h : Gathers r ps gs) : ps.Pairwise fun p q => p.stop≤q.first := by
  refine (h.tiled.order.and h.tiled.clear).imp_of_mem fun {p q} hp hq hpq => ?_
  by_contra hlt
  have hl := h.filled q hq
  exact hpq.2 q.first ⟨⟨hpq.1,Nat.not_le.1 hlt⟩,le_rfl,Nat.lt_add_of_pos_right hl⟩

/-- The search finds the row of a datagram when there is one, and no other. -/
theorem find_eq_some {h : Octets} (hd : d < cfg.ip4ReassDatagrams) (hl : (w.row d).Live (keyOf h))
    (hno : ∀ k < cfg.ip4ReassDatagrams,k≠d → ¬(w.row k).Live (keyOf h)) : find cfg w h=some d := by
  have hts : ∀ k,(((w.row k).state==.holding || (w.row k).state==.abandoned) && (w.row k).named h) ↔
      (w.row k).Live (keyOf h) := by
    intro k
    rw [Bool.and_eq_true,Bool.or_eq_true,beq_iff_eq,beq_iff_eq,named_iff]
    rfl
  unfold find
  rw [firstIndex_only hd fun k hk hkd => Bool.eq_false_of_not_eq_true fun ht => hno k hk hkd ((hts k).1 ht),
    if_pos ((hts d).2 hl)]

variable {fi : ℕ} {pre post m : List ℕ}

theorem Filed.bufId {a : HoldArgs} (hf : Filed cfg w u a fs hs d fi r gs pre post m) : (u.row d).bufId=r.bufId := by
  obtain ⟨fh,hh,hrw,-⟩ := hf.row
  obtain ⟨st,x,hr⟩ := ({r.learned a fi with fragHead := fh,holeHead := hh} : Datagram).settled_rest
  rw [hrw,hr]
  rfl

theorem Filed.entries {a : HoldArgs} (hf : Filed cfg w u a fs hs d fi r gs pre post m) :
    Store.entry ⟨u,filedIn w u a.hdr mem⟩ fi=a.entry ∧
      ∀ k,(w.frag k).state≠.free → Store.entry ⟨u,filedIn w u a.hdr mem⟩ k=Store.entry ⟨w,mem⟩ k := by
  refine ⟨?_,fun k hk => ?_⟩
  · obtain ⟨n,he⟩ := hf.entry
    unfold Store.entry HoldArgs.entry
    rw [hf.piece_new]
    rw [he]
  · have hne : k≠fi := by
      rintro rfl
      exact hk hf.free
    obtain ⟨n,he⟩ := hf.others k hne
    unfold Store.entry
    rw [hf.piece_old hk]
    rw [he]

variable (cfg)

/-- What has come of a datagram: nothing, and no row takes or refuses it, or the fragments one row holds. -/
structure Tracks (key : Key) (s : Store) (fs hs : ℕ → List ℕ) (d : ℕ) (came : List Entry) : Prop where
  ok : Ok cfg s fs hs
  ready : s.work.ready
  others : ∀ k < cfg.ip4ReassDatagrams,k≠d ∨ came=[] → ¬(s.work.row k).Live key
  row_lt : came≠[] → d < cfg.ip4ReassDatagrams
  row : came≠[] → (s.work.row d).state=.holding ∧ (s.work.row d).bufId=key
  held : came≠[] → ((fs d).map s.entry).Perm came

/-- A call that leaves the row of a datagram alone; of its own fragments there is room for each. -/
def Spares (key : Key) (w : Work) : Call → Prop
  | .hold a => keyOf a.hdr=key → ¬Full cfg w a
  | .release i => ¬((w.row i).state=.holding ∧ (w.row i).bufId=key)
  | .tick nowMs => ∀ i < cfg.ip4ReassDatagrams,(w.row i).state=.holding → (w.row i).bufId=key →
      reached nowMs (w.row i).deadlineMs=false
  | _ => True

/-- The call holds a fragment of a datagram. -/
def Call.own? (key : Key) : Call → Option HoldArgs
  | .hold a => if keyOf a.hdr=key then some a else none
  | _ => none

variable {cfg}

/-- A call about other datagrams does not open or close a row of this one. -/
theorem Change.foreign (h : Ok cfg ⟨w,mem⟩ fs hs) (hc : Change cfg w mem fs hs c u fs' hs') (hown : c.own? key=none)
    (hsp : Spares cfg key w c) {came : List Entry} (ht : Tracks cfg key ⟨w,mem⟩ fs hs d came) :
    Tracks cfg key ⟨u,c.files w u mem⟩ fs' hs' d came := by
  have hfr : ∀ a,c=.hold a → keyOf a.hdr≠key := by
    rintro a rfl heq
    have hsm : Call.own? key (.hold a)=some a := if_pos heq
    rw [hsm] at hown
    cases hown
  -- a row that takes or refuses fragments afterwards did so before, and the row itself stays
  have hkp : (∀ k < cfg.ip4ReassDatagrams,(u.row k).Live key → (w.row k).Live key) ∧
      (d < cfg.ip4ReassDatagrams → (w.row d).state=.holding → (w.row d).bufId=key →
        (u.row d).state=.holding ∧ (u.row d).bufId=key ∧ fs' d=fs d ∧
          ∀ i∈fs d,entry ⟨u,c.files w u mem⟩ i=entry ⟨w,mem⟩ i) := by
    cases hc with
    | alike ha hio =>
      refine ⟨fun k _ hl => ?_,fun _ hst hkey => ?_⟩
      · obtain ⟨x,hx⟩ := ha.rows k
        rw [hx] at hl
        exact hl
      · obtain ⟨x,hx⟩ := ha.rows d
        rw [hx,c.files_eq ha.frag]
        refine ⟨hst,hkey,rfl,fun i _ => ?_⟩
        unfold entry piece
        rw [ha.frag]
    | @shut ds hs' hits gone hio =>
      have hout : ∀ k∈ds,¬(u.row k).Live key := by
        intro k hk hl
        obtain ⟨st,hst,hrow⟩ := hs'.shut k hk
        have hkey : (w.row k).bufId=key := by
          have h2 := hl.2
          rw [hrow] at h2
          exact h2
        cases c with
        | hold a => exact hfr a rfl ((named_iff.1 (hits k hk)).symm.trans hkey)
        | next i => exact hits k hk
        | release i =>
          have hlv := hl.1
          rw [gone (fun a => nofun) k hk] at hlv
          exact hlv.elim nofun nofun
        | reclaim => exact hits k hk
        | tick nowMs =>
          have hlv := hl.1
          rw [gone (fun a => nofun) k hk] at hlv
          exact hlv.elim nofun nofun
      refine ⟨fun k _ hl => ?_,fun hlt hst hkey => ?_⟩
      · have hk : k∉ds := fun hk => hout k hk hl
        rwa [hs'.rows k hk] at hl
      · have hd : d∉ds := by
          intro hd
          have hit := hits d hd
          cases c with
          | hold a => exact hfr a rfl ((named_iff.1 hit).symm.trans hkey)
          | next i => exact hit
          | release i =>
            subst hit
            exact hsp ⟨hst,hkey⟩
          | reclaim => exact hit
          | tick nowMs => cases (hsp d hlt hst hkey).symm.trans hit
        rw [hs'.rows d hd,c.files_eq hs'.frag]
        refine ⟨hst,hkey,rfl,fun i _ => ?_⟩
        unfold entry piece
        rw [hs'.frag]
    | @filed a v hl k fi pre post m hc was named seat agrees len hf =>
      subst hc
      have hne : keyOf a.hdr≠key := hfr a rfl
      have hid : (u.row k).bufId=keyOf a.hdr := hf.bufId.trans (named_iff.1 named)
      refine ⟨fun j _ hlv => ?_,fun hlt hst hkey => ?_⟩
      · have hjk : j≠k := by
          rintro rfl
          exact hne (hid.symm.trans hlv.2)
        rwa [hf.rows j hjk] at hlv
      · have hdk : d≠k := by
          rintro rfl
          rcases was with ⟨-,hfree⟩|⟨-,hv⟩
          · rw [hst] at hfree
            cases hfree
          · rw [hv] at named
            exact hne ((named_iff.1 named).symm.trans hkey)
        rw [hf.rows d hdk,update_of_ne hdk]
        exact ⟨hst,hkey,rfl,fun i hi => hf.entries.2 i (bne_iff_ne.1 (h.frags.kept.used_of_mem hlt hi).2)⟩
    | @popped k f rest hc hp =>
      subst hc
      obtain ⟨-,-,hstate,hr⟩ := hp.rows h
      refine ⟨fun j _ hlv => ?_,fun hlt hst hkey => ?_⟩
      · have hjk : j≠k := by
          rintro rfl
          have hl := hlv.1
          rw [hstate] at hl
          split_ifs at hl <;> exact hl.elim nofun nofun
        rwa [hr j hjk] at hlv
      · have hdk : d≠k := by
          rintro rfl
          have hre := hp.state
          rw [hst] at hre
          cases hre
        rw [hr d hdk,update_of_ne hdk]
        refine ⟨hst,hkey,rfl,fun i hi => ?_⟩
        have hif : i≠f := by
          rintro rfl
          exact hdk (h.frags.kept.row_unique hlt hp.row_lt hi (by rw [hp.list]; exact mem_cons_self))
        unfold entry piece Call.files
        rw [hp.frag,update_of_ne hif]
  refine ⟨hc.ok h,hc.ready.trans ht.ready,fun k hk hne hl => ht.others k hk hne (hkp.1 k hk hl),ht.row_lt,fun hne => ?_,
    fun hne => ?_⟩
  · have hrow := ht.row hne
    obtain ⟨hst,hkey,-⟩ := hkp.2 (ht.row_lt hne) hrow.1 hrow.2
    exact ⟨hst,hkey⟩
  · have hrow := ht.row hne
    obtain ⟨-,-,hls,hent⟩ := hkp.2 (ht.row_lt hne) hrow.1 hrow.2
    rw [hls,map_congr_left hent]
    exact ht.held hne

end Rows

section Arrivals

variable {cfg : Config} {w u : Work} {mem : Memory} {fs hs : ℕ → List ℕ} {d : ℕ} {key : Key} {came : List Entry}
  {a : HoldArgs} {ts : List Piece} {rest : List Piece}

/-- The row a fragment completed, and where its walk begins. -/
structure Completed (cfg : Config) (s : Store) (fs : ℕ → List ℕ) (d : ℕ) (came : List Entry) : Prop where
  row_lt : d < cfg.ip4ReassDatagrams
  ready : s.work.ready
  state : (s.work.row d).state=.complete
  chain : Chain s.work.fragNext cfg.ip4ReassFrags none8 (s.work.row d).cursor (fs d)
  held : ((fs d).map s.entry).Perm came
  ascending : ((fs d).map s.piece).Pairwise fun p q => p.stop≤q.first

/-- A tile of the datagram is held by its row, and completes it when it is the last to come. -/
theorem Tracks.arrive (ht : Tracks cfg key ⟨w,mem⟩ fs hs d came) (htl : Tiles 0 ts)
    (hpr : (came.map Entry.piece++a.piece::rest).Perm ts) (hp : a.Proper) (htop : Pieces.endOf ts≤65535) (hkey : keyOf a.hdr=key)
    (hrm : ¬Full cfg w a) :
    ∃ fs' hs' d',(hold cfg w a).io.status=.ok ∧ (hold cfg w a).io.index=d' ∧ ((hold cfg w a).io.complete ↔ rest=[]) ∧
      (rest≠[] → Tracks cfg key (Store.step cfg ⟨w,mem⟩ (.hold a)) fs' hs' d' (came++[a.entry])) ∧
      (rest=[] → (hold cfg w a).io.totalLen=Pieces.endOf ts ∧
        Completed cfg (Store.step cfg ⟨w,mem⟩ (.hold a)) fs' d' (came++[a.entry])) := by
  have hok := ht.ok
  -- the row the search finds is the one that holds what came
  have hfn : ∀ k,find cfg w a.hdr=some k → came≠[] ∧ k=d := by
    intro k hf
    obtain ⟨hk,hst,hn⟩ := find_some hf
    have hlv : (w.row k).Live key := ⟨hst,(named_iff.1 hn).trans hkey⟩
    refine ⟨fun hnil => ht.others k hk (.inr hnil) hlv,?_⟩
    by_contra hne
    exact ht.others k hk (.inl hne) hlv
  have hpc : came≠[] → ((fs d).map (piece ⟨w,mem⟩)).Perm (came.map Entry.piece) := by
    intro hne
    have hhl := (ht.held hne).map Entry.piece
    rw [map_map] at hhl
    exact hhl
  obtain ⟨fs',hs',hc,hstatus⟩ := hold_files hok ht.ready hp hrm fun k hf => by
    obtain ⟨hne,rfl⟩ := hfn k hf
    exact ⟨(ht.row hne).1,htl.agrees (((hpc hne).append_right _).trans hpr) htop⟩
  have hok' := hc.ok hok
  have hready := hc.ready.trans ht.ready
  cases hc with
  | alike ha hio => exact absurd hstatus hio
  | shut hs hits gone hio => exact absurd hstatus hio
  | popped hc hp => cases hc
  | @filed a' v hl k fi pre post m hc was named seat agrees len hf =>
    cases hc
    have hnew : entry ⟨hold cfg w a,filedIn w (hold cfg w a) a.hdr mem⟩ fi=a.entry := hf.entries.1
    have hold' : ∀ i,(w.frag i).state≠.free →
        entry ⟨hold cfg w a,filedIn w (hold cfg w a) a.hdr mem⟩ i=entry ⟨w,mem⟩ i := hf.entries.2
    have hk := seat.row_lt
    -- with nothing held before, the row was opened, and what came before is in it otherwise
    have hb : ((fs k).map (entry ⟨w,mem⟩)).Perm came ∧ (k≠d → came=[]) := by
      rcases was with ⟨hf,hfr⟩|⟨hf,-⟩
      · have hnil : came=[] := by
          by_contra hne
          have hrow := ht.row hne
          have hsm := find_eq_some (h := a.hdr) (ht.row_lt hne) ⟨.inl hrow.1,hrow.2.trans hkey.symm⟩ fun j hj hjd =>
            hkey ▸ ht.others j hj (.inl hjd)
          rw [show find cfg w a.hdr=some d from hsm] at hf
          cases hf
        have hfs : fs k=[] := hok.frags.free k hk (by rw [show (Store.mk w mem).work.row k=w.row k from rfl,hfr]; rfl)
        rw [hfs,hnil]
        exact ⟨.refl _,fun _ => rfl⟩
      · obtain ⟨hne,rfl⟩ := hfn k hf
        exact ⟨ht.held hne,fun hno => (hno rfl).elim⟩
    have hu : ∀ i∈pre++post,(w.frag i).state≠.free := by
      intro i hi
      exact bne_iff_ne.1 (hok.frags.kept.used_of_mem hk (hf.split ▸ hi)).2
    have he : (update fs k (pre++fi::post) k).map (Store.entry (Store.step cfg ⟨w,mem⟩ (.hold a))) =
        pre.map (entry ⟨w,mem⟩)++a.entry::post.map (entry ⟨w,mem⟩) := by
      rw [update_self,map_append,map_cons]
      congr 1
      · exact map_congr_left fun i hi => hold' i (hu i (mem_append_left _ hi))
      · exact congrArg₂ cons hnew (map_congr_left fun i hi => hold' i (hu i (mem_append_right _ hi)))
    have hhl : ((update fs k (pre++fi::post) k).map
        (Store.entry (Store.step cfg ⟨w,mem⟩ (.hold a)))).Perm (came++[a.entry]) := by
      rw [he]
      have hca := hb.1
      rw [hf.split,map_append] at hca
      exact perm_middle.trans ((hca.cons a.entry).trans (perm_append_singleton a.entry came).symm)
    obtain ⟨htt,hfirst,hstate⟩ := hf.learned
    have hlv : ((hold cfg w a).row k).state=.holding ∨ ((hold cfg w a).row k).state=.complete := by
      rw [hstate,seat.state]
      split_ifs
      · exact .inr rfl
      · exact .inl rfl
    have hg := hok'.rows k hk hlv
    have hps : ((update fs k (pre++fi::post) k).map
        (piece ⟨hold cfg w a,Call.files (.hold a) w (hold cfg w a) mem⟩)).Perm (came.map Entry.piece++[a.piece]) := by
      have hmap := hhl.map Entry.piece
      rw [map_map,map_append] at hmap
      exact hmap
    have hta : (came.map Entry.piece++[a.piece]++rest).Perm ts := by
      rw [append_assoc]
      exact hpr
    have hw : ((hold cfg w a).row k).state=.complete ↔ rest=[] :=
      hg.whole.trans (htl.whole_iff ((hps.append_right _).trans hta))
    have hcm : (hold cfg w a).io.complete ↔ ((hold cfg w a).row k).state=.complete := by
      rw [hf.complete,hstate,decide_eq_true_iff,seat.state]
      constructor
      · intro hfl
        rw [if_pos hfl]
      · intro hc
        by_contra hno
        rw [if_neg hno] at hc
        cases hc
    refine ⟨update fs k (pre++fi::post),update hs k m,k,hstatus,hf.index,hcm.trans hw,fun hr => ?_,fun hr => ⟨?_,?_⟩⟩
    · refine ⟨hok',hready,fun j hj hne hl => ?_,fun _ => hk,fun _ => ⟨?_,?_⟩,fun _ => hhl⟩
      · have hjk : j≠k := hne.resolve_right (append_ne_nil_of_right_ne_nil _ (cons_ne_nil _ _))
        have hl' : (w.row j).Live key := by
          have hrow : (hold cfg w a).row j=w.row j := hf.rows j hjk
          rw [←hrow]
          exact hl
        refine ht.others j hj ?_ hl'
        by_cases hkd : k=d
        · exact .inl (hkd ▸ hjk)
        · exact .inr (hb.2 hkd)
      · exact hlv.resolve_right fun hc => hr (hw.1 hc)
      · exact (hf.bufId.trans (named_iff.1 named)).trans hkey
    · have hst := hw.2 hr
      obtain ⟨hls,-⟩ := hg.whole.1 hst
      rw [hf.totalLen,←htt]
      refine (hg.ends (hg.last.2 hls)).trans (htl.bound_eq (fun q hq => ?_) hls)
      exact hta.subset (mem_append_left _ (hps.subset hq))
    · have hst := hw.2 hr
      refine ⟨hk,hready,hst,?_,hhl,hg.ascending⟩
      have hch := hok'.frags.chain k hk (bne_iff_ne.2 (by rw [show _=_ from hst]; decide))
      -- completing it set the walk to the first fragment
      have hcr : ((hold cfg w a).row k).cursor=((hold cfg w a).row k).fragHead := by
        obtain ⟨fh,hh,hrow,-⟩ := hf.row
        rw [hrow] at hst ⊢
        unfold settled at hst ⊢
        split_ifs at hst ⊢ with hfl
        · rfl
        · exact absurd (seat.state.symm.trans hst) (by decide)
      show Chain _ _ _ ((hold cfg w a).row k).cursor _
      rw [hcr]
      exact hch

end Arrivals

/-- Fragments, in offset order, that tile a datagram of at most 65535 octets. -/
structure Tiling (key : Key) (as : List HoldArgs) : Prop where
  /-- They follow each other from the first octet to the last. -/
  tiles : TilesFrom 0 (as.map HoldArgs.piece)
  /-- A datagram in one piece is no fragment. -/
  several : 2≤as.length
  valid : ∀ a∈as,Ip4.verify a.hdr a.len
  size : ∀ a∈as,Ip4.fragOffsetBytes a.hdr+dataLen a.hdr+Ip4.hdrLen a.hdr≤65535
  key : ∀ a∈as,keyOf a.hdr=key

section Orders

variable {cfg : Config} {key : Key} {as : List HoldArgs} {a : HoldArgs}

theorem Tiling.proper (h : Tiling key as) (ha : a∈as) : a.Proper := by
  have hmm : a.piece∈as.map HoldArgs.piece := mem_map_of_mem ha
  have hlen : 0<dataLen a.hdr := h.tiles.tiles.filled a.piece hmm
  refine ⟨h.valid a ha,h.tiles.not_alone (by rw [length_map]; exact h.several) a.piece hmm,?_,h.size a ha⟩
  rintro (hz | ⟨hm,hmd⟩)
  · omega
  · have hu : ∀ p∈as.map HoldArgs.piece,8 ∣ p.first := by
      intro p hp
      obtain ⟨b,-,rfl⟩ := mem_map.1 hp
      exact ⟨_,Nat.mul_comm _ 8⟩
    exact hmd (Nat.mod_eq_zero_of_dvd (h.tiles.dvd hu a.piece hmm hm))

theorem Tiling.endOf_le (h : Tiling key as) : Pieces.endOf (as.map HoldArgs.piece)≤65535 := by
  obtain ⟨p,hp,hm⟩ := h.tiles.tiles.ended
  obtain ⟨a,ha,rfl⟩ := mem_map.1 hp
  have hsize := h.size a ha
  have hstop : a.piece.stop=Ip4.fragOffsetBytes a.hdr+dataLen a.hdr := rfl
  rw [←h.tiles.tiles.last _ hp hm]
  omega

theorem Tiling.entries_eq (h : Tiling key as) {es : List Entry} (hpr : es.Perm (as.map HoldArgs.entry))
    (has : (es.map Entry.piece).Pairwise fun p q => p.stop≤q.first) : es=as.map HoldArgs.entry := by
  have hor : (as.map HoldArgs.entry).Pairwise fun p q => p.piece.stop≤q.piece.first := by
    have ho := h.tiles.tiles.order
    rw [pairwise_map] at ho ⊢
    exact ho
  have hf : ∀ e∈as.map HoldArgs.entry,0<e.piece.len := by
    intro e he
    obtain ⟨a,ha,rfl⟩ := mem_map.1 he
    exact h.tiles.tiles.filled a.piece (mem_map_of_mem ha)
  refine hpr.eq_of_pairwise (fun p q hp hq hpq hqp => ?_) (pairwise_map.1 has) hor
  have h2 := hf q hq
  unfold Piece.stop at hpq hqp
  omega

/-- A call of its own is a `hold` of one of its fragments. -/
theorem Call.own?_some {c : Call} (h : c.own? key=some a) : c=.hold a ∧ keyOf a.hdr=key := by
  cases c with
  | hold b =>
    unfold Call.own? at h
    dsimp only at h
    split_ifs at h with hk
    cases h
    exact ⟨rfl,hk⟩
  | next i => cases h
  | release i => cases h
  | reclaim => cases h
  | tick nowMs => cases h

variable {s : Store}

/-- A fragment that comes while others are missing is held and does not complete the datagram. -/
theorem Tracks.call {fs hs : ℕ → List ℕ} {d : ℕ} {came : List HoldArgs} {rest : List HoldArgs} {c : Call}
    (h : Tiling key as) (ht : Tracks cfg key s fs hs d (came.map HoldArgs.entry)) (hsp : Spares cfg key s.work c) (hr : rest≠[])
    (hp : (came++(c.own? key).toList++rest).Perm as) :
    (∀ b,c.own? key=some b → (hold cfg s.work b).io.status=.ok ∧ (hold cfg s.work b).io.complete=false) ∧
      ∃ fs' hs' d',Tracks cfg key (Store.step cfg s c) fs' hs' d' ((came++(c.own? key).toList).map HoldArgs.entry) := by
  obtain ⟨w,mem⟩ := s
  cases hown : c.own? key with
  | none =>
    obtain ⟨fs1,hs1,hc⟩ := step_change ht.ok c
    refine ⟨nofun,fs1,hs1,d,?_⟩
    rw [Option.toList_none,append_nil]
    exact hc.foreign ht.ok hown hsp ht
  | some a =>
    obtain ⟨rfl,hk⟩ := Call.own?_some hown
    rw [hown,Option.toList_some] at hp
    have hin : a∈as := hp.subset (mem_append_left _ (mem_append_right _ (mem_singleton_self a)))
    have hpc : ((came.map HoldArgs.entry).map Entry.piece++a.piece::rest.map HoldArgs.piece).Perm (as.map HoldArgs.piece) := by
      rw [map_map]
      have hmap := hp.map HoldArgs.piece
      rw [append_assoc,singleton_append,map_append,map_cons] at hmap
      exact hmap
    have hne : rest.map HoldArgs.piece≠[] := fun hnil => hr (map_eq_nil_iff.1 hnil)
    obtain ⟨fs1,hs1,d1,hok,-,hcm,hgo,-⟩ := ht.arrive h.tiles.tiles hpc (h.proper hin) h.endOf_le hk (hsp hk)
    refine ⟨fun b hb => ?_,fs1,hs1,d1,?_⟩
    · obtain rfl : a=b := Option.some.inj hb
      exact ⟨hok,Bool.eq_false_of_not_eq_true fun hc => hne (hcm.1 hc)⟩
    · rw [Option.toList_some,map_append]
      exact hgo hne

theorem filterMap_cons_toList {α β : Type*} (f : α → Option β) (x : α) (l : List α) :
    (x::l).filterMap f=(f x).toList++l.filterMap f := by
  rw [filterMap_cons]
  cases f x <;> rfl

/-- Fragments of a datagram that come while others of its are missing are held, and none completes it. -/
theorem Tracks.run {fs hs : ℕ → List ℕ} {d : ℕ} {came : List HoldArgs} {rest : List HoldArgs} (h : Tiling key as)
    (cs : List Call) (ht : Tracks cfg key s fs hs d (came.map HoldArgs.entry))
    (hsp : Along (Store.step cfg) (fun s c => Spares cfg key s.work c) s cs) (hr : rest≠[])
    (hp : (came++cs.filterMap (Call.own? key)++rest).Perm as) : Along (Store.step cfg) (fun s c => ∀ b,c.own? key=some b →
        (hold cfg s.work b).io.status=.ok ∧ (hold cfg s.work b).io.complete=false) s cs ∧
      ∃ fs' hs' d',Tracks cfg key (StepRun.run (Store.step cfg) s cs) fs' hs' d'
        ((came++cs.filterMap (Call.own? key)).map HoldArgs.entry) := by
  induction cs generalizing s fs hs d came with
  | nil => exact ⟨trivial,fs,hs,d,by rwa [filterMap_nil,append_nil]⟩
  | cons c cs ih =>
    obtain ⟨hone,hm⟩ := hsp
    rw [filterMap_cons_toList,←append_assoc] at hp ⊢
    have hl : cs.filterMap (Call.own? key)++rest≠[] := fun hnil => hr (append_eq_nil_iff.1 hnil).2
    obtain ⟨hio,fs1,hs1,d1,htr⟩ := ht.call h hone hl (by rwa [←append_assoc])
    obtain ⟨hal,hend⟩ := ih htr hm hp
    exact ⟨⟨hio,hal⟩,hend⟩

variable {w : Work} {d : ℕ} (hready : w.ready=true) (hd : d < cfg.ip4ReassDatagrams) (hst : (w.row d).state=.complete)
include hready hd hst

/-- One call of `next` on a complete row reports the fragment its cursor names and moves on. -/
theorem next_reports {f : ℕ} (hc : (w.row d).cursor=f) (hf : f≠none8) :
    (next cfg w d).row d={w.row d with cursor := (w.frag f).next} ∧
      let io := (next cfg w d).io
      io.status=.ok ∧ io.off=(w.frag f).off ∧ io.len=(w.frag f).len ∧ io.desc=(w.frag f).desc ∧
        io.hdrLen=(w.frag f).hdrLen := by
  subst hc
  unfold next
  rw [if_neg (by simp [hready,hd])]
  unfold report
  split
  · next ho => exact absurd (ho.symm.trans hst) (by decide)
  · rw [if_neg hf]
    exact ⟨update_self _ _ _,rfl,rfl,rfl,rfl,rfl⟩
  · next hno => exact (hno hst).elim

theorem next_busy (hc : (w.row d).cursor=none8) : (next cfg w d).io.status=.busy := by
  unfold next
  rw [if_neg (by simp [hready,hd])]
  unfold report
  split
  · rfl
  · rw [if_pos hc]
    rfl
  · next hno => exact (hno hst).elim

/-- Calls of `next` walk the list of a complete row from its cursor on, and then are busy. -/
theorem next_walks {l : List ℕ} (hl : Chain w.fragNext cfg.ip4ReassFrags none8 (w.row d).cursor l) : (∀ j i,l[j]?=some i →
      let io := (next cfg (run (step cfg) w (List.replicate j (.next d))) d).io
      io.status=.ok ∧ io.off=(w.frag i).off ∧ io.len=(w.frag i).len ∧ io.desc=(w.frag i).desc ∧ io.hdrLen=(w.frag i).hdrLen) ∧
      (next cfg (run (step cfg) w (List.replicate l.length (.next d))) d).io.status=.busy := by
  induction l generalizing w with
  | nil => exact ⟨nofun,next_busy hready hd hst hl⟩
  | cons f l ih =>
    obtain ⟨hcr,hf,ht⟩ := hl
    have ha := next_alike cfg w d
    obtain ⟨hrw,hio⟩ := next_reports hready hd hst hcr (hf.trans_le frags_le_none).ne
    have hc : Chain (next cfg w d).fragNext cfg.ip4ReassFrags none8 ((next cfg w d).row d).cursor l := by
      have hln : (next cfg w d).fragNext=w.fragNext := by
        unfold Work.fragNext
        rw [ha.frag]
      rw [hrw,hln]
      exact ht
    obtain ⟨hw,hb⟩ := ih (ha.ready.trans hready) ((ha.state d).trans hst) hc
    refine ⟨fun j i hj => ?_,hb⟩
    cases j with
    | zero =>
      cases hj
      exact hio
    | succ j =>
      have hr := hw j i hj
      rw [ha.frag] at hr
      exact hr

omit hready hd hst

/-- A row by its lists: its fragments ascend apart, its holes are what they leave missing up to the total length, and
it is complete when nothing is. -/
structure Covered (s : Store) (d : ℕ) (ps : List Piece) (gs : List Gap) : Prop where
  ascending : ps.Pairwise fun p q => p.stop≤q.first
  filled : ∀ p∈ps,0<p.len
  apart : Apart gs
  complement : ∀ x,Missing gs x ↔ x<bound 65535 ps ∧ ¬Held ps x
  total : (∃ p∈ps,p.more=false) → bound 65535 ps=(s.work.row d).totalLen
  last : ∀ p∈ps,p.more=false → p.stop=(s.work.row d).totalLen
  complete : (s.work.row d).state=.complete ↔ (∃ p∈ps,p.more=false) ∧ ∀ x<(s.work.row d).totalLen,Held ps x

theorem Ok.covered {fs hs : ℕ → List ℕ} {d : ℕ} (h : Ok cfg s fs hs) (hd : d < cfg.ip4ReassDatagrams)
    (hst : (s.work.row d).state=.holding ∨ (s.work.row d).state=.complete) :
    Covered s d ((s.work.frags cfg d).map s.piece) (s.work.gaps (s.work.holes cfg d)) := by
  have hu : ((s.work.row d).state != .free) := by
    rcases hst with hst|hst <;> rw [hst] <;> rfl
  have hf : s.work.frags cfg d=fs d := h.frags.walk frags_le_none hd hu
  have hh : s.work.holes cfg d=hs d := h.holes.walk holes_le_none hd hu
  have hg := h.rows d hd hst
  rw [hf,hh]
  have ht : (∃ p∈(fs d).map s.piece,p.more=false) → bound 65535 ((fs d).map s.piece)=(s.work.row d).totalLen :=
    fun hex => (hg.ends (hg.last.2 hex)).symm
  refine ⟨hg.ascending,hg.filled,hg.tiled.apart,hg.tiled.missing,ht,fun p hp hm => ?_,?_⟩
  · rw [hg.tiled.last p hp hm]
    exact ht ⟨p,hp,hm⟩
  · rw [hg.whole]
    refine and_congr_right fun hex => ?_
    rw [ht hex]

variable {before : List Call}

/-- A datagram's fragments in whatever order among other calls: each is held, the last completes it, and `next`
reports them in offset order. -/
theorem Tracks.gathers {fs hs : ℕ → List ℕ} {d : ℕ}
    (hstart : Tracks cfg key s fs hs d (([] : List HoldArgs).map HoldArgs.entry)) (htl : Tiling key as) (hkey : keyOf a.hdr=key)
    (hp : (before.filterMap (Call.own? key)++[a]).Perm as)
    (hsp : Along (Store.step cfg) (fun s c => Spares cfg key s.work c) s (before++[.hold a])) :
    Along (Store.step cfg) (fun s c => ∀ b,c.own? key=some b →
        (hold cfg s.work b).io.status=.ok ∧ (hold cfg s.work b).io.complete=false) s before ∧
      let u := hold cfg (StepRun.run (Store.step cfg) s before).work a
      u.io.status=.ok ∧ u.io.complete ∧ u.io.totalLen=Pieces.endOf (as.map HoldArgs.piece) ∧ (∀ j b,as[j]?=some b →
          let io := (next cfg (StepRun.run (step cfg) u (replicate j (.next u.io.index))) u.io.index).io
          io.status=.ok ∧ io.off=Ip4.fragOffsetBytes b.hdr ∧ io.len=dataLen b.hdr ∧ io.desc=b.desc ∧
            io.hdrLen=Ip4.hdrLen b.hdr) ∧
        (next cfg (StepRun.run (step cfg) u (replicate as.length (.next u.io.index))) u.io.index).io.status=.busy := by
  -- what comes before the last fragment
  have hsplit : Along (Store.step cfg) (fun s c => Spares cfg key s.work c) s before ∧
      Spares cfg key (StepRun.run (Store.step cfg) s before).work (.hold a) :=
    ⟨(along_append.1 hsp).1,(along_append.1 hsp).2.1⟩
  obtain ⟨hal,fs1,hs1,d1,htr⟩ := hstart.run htl before hsplit.1 (cons_ne_nil a []) hp
  refine ⟨hal,?_⟩
  have hin : a∈as := hp.subset (mem_append_right _ (mem_singleton_self a))
  rw [nil_append] at htr
  obtain ⟨u,hu⟩ : ∃ u,StepRun.run (Store.step cfg) s before=u := ⟨_,rfl⟩
  rw [hu] at htr hsplit ⊢
  obtain ⟨v,m⟩ := u
  have hpc : (((before.filterMap (Call.own? key)).map HoldArgs.entry).map Entry.piece++a.piece::[]).Perm
      (as.map HoldArgs.piece) := by
    rw [map_map]
    have hmap := hp.map HoldArgs.piece
    rw [map_append] at hmap
    exact hmap
  obtain ⟨fs2,hs2,d2,hstatus,hi,hc,-,hend⟩ :=
    htr.arrive htl.tiles.tiles hpc (htl.proper hin) htl.endOf_le hkey (hsplit.2 hkey)
  obtain ⟨ht,hdn⟩ := hend rfl
  refine ⟨hstatus,hc.2 rfl,ht,?_⟩
  -- the list of the row is the fragments in offset order
  have hls : (fs2 d2).map (Store.step cfg ⟨v,m⟩ (.hold a)).entry=as.map HoldArgs.entry := by
    refine htl.entries_eq (hdn.held.trans ?_) ?_
    · have hmap := hp.map HoldArgs.entry
      rw [map_append] at hmap
      exact hmap
    · have hasc := hdn.ascending
      rw [map_map]
      exact hasc
  have hlen : (fs2 d2).length=as.length := by
    have hl := congrArg length hls
    rwa [length_map,length_map] at hl
  obtain ⟨hw,hb⟩ := next_walks hdn.ready hdn.row_lt hdn.state hdn.chain
  rw [hlen] at hb
  rw [show (hold cfg v a).io.index=d2 from hi]
  refine ⟨fun j b hj => ?_,hb⟩
  have hlt : j<(fs2 d2).length := by
    rw [hlen]
    exact (List.getElem?_eq_some_iff.1 hj).1
  obtain ⟨hok',hoff,hlen',hds,hhdr⟩ := hw j _ (getElem?_eq_getElem hlt)
  have he : (Store.step cfg ⟨v,m⟩ (.hold a)).entry ((fs2 d2)[j])=b.entry := by
    have hj2 := congrArg (fun l => l[j]?) hls
    simp only [getElem?_map,hj,getElem?_eq_getElem hlt,Option.map_some] at hj2
    exact Option.some.inj hj2
  obtain ⟨hpi,hdesc2,hhdr2⟩ := Entry.mk.inj he
  obtain ⟨hf,hpl,-⟩ := Piece.mk.inj hpi
  exact ⟨hok',hoff.trans hf,hlen'.trans hpl,hds.trans hdesc2,hhdr.trans hhdr2⟩

/-- A call that gives a fragment, or lets time pass before the deadline of a row that gathers. -/
def Early (cfg : Config) (w : Work) : Call → Prop
  | .hold _ => True
  | .tick nowMs => ∀ i < cfg.ip4ReassDatagrams,(w.row i).state=.holding → reached nowMs (w.row i).deadlineMs=false
  | _ => False

/-- Tables that hold the fragments of one datagram and nothing else. -/
structure Lone (cfg : Config) (key : Key) (s : Store) (came : List HoldArgs) : Prop where
  tracks : ∃ fs hs d,Tracks cfg key s fs hs d (came.map HoldArgs.entry)
  held : s.work.held=came.length
  fresh : came=[] → ∀ k,(s.work.row k).state=.free

theorem lone_clear (cfg : Config) (key : Key) (w : Work) (mem : Memory) : Lone cfg key ⟨clear w,mem⟩ [] :=
  ⟨⟨_,_,0,ok_clear cfg w mem,rfl,fun _ _ _ hl => hl.1.elim nofun nofun,fun hne => (hne rfl).elim,fun hne => (hne rfl).elim,
    fun hne => (hne rfl).elim⟩,rfl,fun _ _ => rfl⟩

/-- There is room in them for the next fragment, and nothing is closed early. -/
theorem Lone.spares {came : List HoldArgs} {c : Call} (h : Lone cfg key s came) (hroom : came.length < cfg.ip4ReassFrags)
    (hr : 0 < cfg.ip4ReassDatagrams) (he : Early cfg s.work c) : Spares cfg key s.work c := by
  cases c with
  | hold a =>
    rintro hk (hf|⟨hn,hu⟩)
    · rw [h.held] at hf
      omega
    · obtain ⟨fs,hs,d,ht⟩ := h.tracks
      cases came with
      | nil => exact hu 0 hr (h.fresh rfl 0)
      | cons b came =>
        have hne : (b::came).map HoldArgs.entry≠[] := cons_ne_nil _ _
        have hrw := ht.row hne
        have hsm := find_eq_some (h := a.hdr) (ht.row_lt hne) ⟨.inl hrw.1,hrw.2.trans hk.symm⟩ fun j hj hjd =>
          hk ▸ ht.others j hj (.inl hjd)
        rw [hn] at hsm
        cases hsm
  | tick nowMs => exact fun i hi hst _ => he i hi hst
  | next i => trivial
  | release i => exact he.elim
  | reclaim => trivial

theorem Lone.call {came rest : List HoldArgs} {c : Call} (htl : Tiling key as) (h : Lone cfg key s came)
    (hr : came.length < cfg.ip4ReassFrags) (hrw : 0 < cfg.ip4ReassDatagrams) (he : Early cfg s.work c)
    (hown : ∀ b,c=.hold b → keyOf b.hdr=key) (hrs : rest≠[]) (hpr : (came++(c.own? key).toList++rest).Perm as) :
    Lone cfg key (Store.step cfg s c) (came++(c.own? key).toList) := by
  obtain ⟨fs,hs,d,ht⟩ := h.tracks
  obtain ⟨hio,htr⟩ := ht.call htl (h.spares hr hrw he) hrs hpr
  obtain ⟨w,mem⟩ := s
  obtain ⟨fs1,hs1,hc⟩ := step_change ht.ok c
  cases c with
  | hold a =>
    have hsm : Call.own? key (.hold a)=some a := if_pos (hown a rfl)
    rw [hsm,Option.toList_some] at htr ⊢
    have hok := (hio a hsm).1
    have hh : (step cfg w (.hold a)).held=w.held+1 := by
      cases hc with
      | alike ha hio => exact absurd hok hio
      | shut hs hits gone hio => exact absurd hok hio
      | filed hc was named seat agrees len hf => exact hf.held
      | popped hc hp => cases hc
    refine ⟨htr,?_,fun hnil => (append_ne_nil_of_right_ne_nil _ (cons_ne_nil _ _) hnil).elim⟩
    rw [length_append,length_singleton,←h.held]
    exact hh
  | tick nowMs =>
    rw [show Call.own? key (.tick nowMs)=none from rfl,Option.toList_none,append_nil] at htr ⊢
    have hkp : (step cfg w (.tick nowMs)).held=w.held ∧
        ∀ k,(w.row k).state=.free → ((step cfg w (.tick nowMs)).row k).state=.free := by
      cases hc with
      | alike ha hio => exact ⟨ha.held,fun k hk => (ha.state k).trans hk⟩
      | shut hs hits gone hio => exact ⟨hs.held,fun k hk => (hs.used k).2 hk⟩
      | filed hc was named seat agrees len hf => cases hc
      | popped hc hp => cases hc
    exact ⟨htr,hkp.1.trans h.held,fun hnil k => hkp.2 k (h.fresh hnil k)⟩
  | next i => exact he.elim
  | release i => exact he.elim
  | reclaim => exact he.elim

/-- Fragments of one datagram come to tables that hold nothing else, while others of its are missing. -/
theorem Lone.run {came rest : List HoldArgs} (htl : Tiling key as) (h : Lone cfg key s came)
    (hroom : as.length ≤ cfg.ip4ReassFrags) (hr : 0 < cfg.ip4ReassDatagrams) (cs : List Call)
    (he : Along (Store.step cfg) (fun s c => Early cfg s.work c) s cs) (ho : ∀ b,Call.hold b∈cs → keyOf b.hdr=key) (hrs : rest≠[])
    (hp : (came++cs.filterMap (Call.own? key)++rest).Perm as) :
    Along (Store.step cfg) (fun s c => Spares cfg key s.work c) s cs ∧
      Lone cfg key (StepRun.run (Store.step cfg) s cs) (came++cs.filterMap (Call.own? key)) := by
  induction cs generalizing s came with
  | nil => exact ⟨trivial,by rwa [filterMap_nil,append_nil]⟩
  | cons c cs ih =>
    obtain ⟨hon,hm⟩ := he
    rw [filterMap_cons_toList,←append_assoc] at hp ⊢
    have hl : cs.filterMap (Call.own? key)++rest≠[] := fun hnl => hrs (append_eq_nil_iff.1 hnl).2
    have hlt : came.length < cfg.ip4ReassFrags := by
      have hln := hp.length_eq
      have hpos := length_pos_iff.2 hrs
      simp only [length_append] at hln
      omega
    have hn := h.call htl hlt hr hon (fun b hb => ho b (hb ▸ mem_cons_self)) hl (by rwa [←append_assoc])
    obtain ⟨hal,hen⟩ := ih hn hm (fun b hb => ho b (mem_cons_of_mem c hb)) hp
    exact ⟨⟨h.spares hlt hr hon,hal⟩,hen⟩

/-- A datagram's fragments in any order, given to empty tables with room before the deadline: each is held, and the
last completes it. -/
theorem clear_gathers (cfg : Config) (w : Work) (htl : Tiling key as) (hrm : as.length ≤ cfg.ip4ReassFrags)
    (hr : 0 < cfg.ip4ReassDatagrams) (hkey : keyOf a.hdr=key) (hp : (before.filterMap (Call.own? key)++[a]).Perm as)
    (hown : ∀ b,Call.hold b∈before → keyOf b.hdr=key) (he : Along (step cfg) (Early cfg) (clear w) before) :
    Along (step cfg) (fun u c => ∀ b,c=.hold b → (hold cfg u b).io.status=.ok ∧ (hold cfg u b).io.complete=false) (clear w) before ∧
      let u := hold cfg (StepRun.run (step cfg) (clear w) before) a
      u.io.status=.ok ∧ u.io.complete ∧ u.io.totalLen=Pieces.endOf (as.map HoldArgs.piece) := by
  obtain ⟨s,hs⟩ : ∃ s : Store,s=⟨clear w,fun _ => Octets.zero⟩ := ⟨_,rfl⟩
  have hw : s.work=clear w := by rw [hs]
  have hl : Lone cfg key s [] := by
    rw [hs]
    exact lone_clear cfg key w _
  have hstep : ∀ (s : Store) (c : Call),(Store.step cfg s c).work=step cfg s.work c := fun _ _ => rfl
  rw [←hw,←along_map work hstep] at he
  obtain ⟨hsp,hend⟩ := hl.run htl hrm hr before he hown (cons_ne_nil a []) (by rwa [nil_append])
  have hls : Spares cfg key (StepRun.run (Store.step cfg) s before).work (.hold a) := by
    refine hend.spares ?_ hr trivial
    have hlen := hp.length_eq
    rw [length_append,length_singleton] at hlen
    rw [nil_append]
    omega
  obtain ⟨fs,hs',d,ht⟩ := hl.tracks
  obtain ⟨hal,hst,hcm,htt,-⟩ := ht.gathers htl hkey hp (along_append.2 ⟨hsp,hls,trivial⟩)
  rw [←hw,←StepRun.run_map work hstep]
  refine ⟨(along_map work hstep _ s before).1 ?_,hst,hcm,htt⟩
  refine (along_iff_get _ _ _ _).2 fun n c hc b hb => ?_
  have hown' : c.own? key=some b := by
    rw [hb]
    exact if_pos (hown b (hb ▸ mem_of_getElem? hc))
  exact (along_iff_get _ _ _ _).1 hal n c hc b hown'

/-- After every run each row's lists fit, and `hold` is busy only for want of an entry or a row. A new datagram's
fragments in whatever order, with room and in time: each is held, the last completes it, and `next` reports them in
offset order. -/
theorem run_gathers_any_order (cfg : Config) (w : Work) (mem : Memory) (cs : List Call) :
    let s := run (Store.step cfg) ⟨clear w,mem⟩ cs
    (∀ d < cfg.ip4ReassDatagrams,(s.work.row d).state=.holding ∨ (s.work.row d).state=.complete →
        Covered s d ((s.work.frags cfg d).map s.piece) (s.work.gaps (s.work.holes cfg d))) ∧
      (∀ a,(hold cfg s.work a).io.status=.busy → Full cfg s.work a) ∧
      ∀ key as before a,Tiling key as → keyOf a.hdr=key → (before.filterMap (Call.own? key)++[a]).Perm as →
        (∀ k < cfg.ip4ReassDatagrams,¬(s.work.row k).Live key) →
        Along (Store.step cfg) (fun s c => Spares cfg key s.work c) s (before++[.hold a]) →
        Along (Store.step cfg) (fun s c => ∀ b,c.own? key=some b →
            (hold cfg s.work b).io.status=.ok ∧ (hold cfg s.work b).io.complete=false) s before ∧
          let u := hold cfg (run (Store.step cfg) s before).work a
          u.io.status=.ok ∧ u.io.complete=true ∧ u.io.totalLen=Pieces.endOf (as.map HoldArgs.piece) ∧ (∀ j b,as[j]?=some b →
              let io := (next cfg (run (step cfg) u (replicate j (.next u.io.index))) u.io.index).io
              io.status=.ok ∧ io.off=Ip4.fragOffsetBytes b.hdr ∧ io.len=dataLen b.hdr ∧ io.desc=b.desc ∧
                io.hdrLen=Ip4.hdrLen b.hdr) ∧
            (next cfg (run (step cfg) u (replicate as.length (.next u.io.index))) u.io.index).io.status=.busy := by
  intro s
  obtain ⟨hready,fs,hs,hok⟩ : Reached cfg (StepRun.run (Store.step cfg) ⟨clear w,mem⟩ cs) :=
    StepRun.run_always (fun _ c h => h.step c) ⟨rfl,_,_,ok_clear cfg w mem⟩
  refine ⟨fun d hd hst => hok.covered hd hst,fun a => (hold_change hok).2,?_⟩
  intro key as before a htl hkey hperm hfresh hsp
  have hstart : Tracks cfg key s fs hs 0 (([] : List HoldArgs).map HoldArgs.entry) :=
    ⟨hok,hready,fun k hk _ => hfresh k hk,fun hne => (hne rfl).elim,fun hne => (hne rfl).elim,fun hne => (hne rfl).elim⟩
  exact hstart.gathers htl hkey hperm hsp

end Orders

end IdemIp.Ip4Reass
