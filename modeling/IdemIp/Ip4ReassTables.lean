import IdemIp.Ip4Reass

/-!
# The tables of the IPv4 reassembler

The fragments of a row that gathers are pieces of its datagram, and its holes
just what they leave missing; the row knows the datagram's length once the last
piece came. A fragment is held when all of it was missing and it agrees with that
length, in the row of its datagram or in one opened for it.
-/

namespace IdemIp.Ip4Reass

open IndexChain Slots Gaps Pieces List Work Ip4 Function Datagram

/-- The headers that lie behind the fragment entries. -/
abbrev Memory := ℕ → Octets

/-- The tables with the headers that lie behind their entries. -/
structure Store where
  work : Work
  mem : Memory

/-- A held fragment; whether more follow stands in its header. -/
def Store.piece (s : Store) (i : ℕ) : Piece := ⟨(s.work.frag i).off,(s.work.frag i).len,Ip4.mf (s.mem i)⟩

/-- A fragment as a piece. -/
def HoldArgs.piece (a : HoldArgs) : Piece := ⟨Ip4.fragOffsetBytes a.hdr,dataLen a.hdr,Ip4.mf a.hdr⟩

/-- The memory after a call: a fresh entry holds the fragment's header. -/
def filedIn (w u : Work) (p : Octets) (mem : Memory) : Memory := fun i =>
  if (w.frag i).state==.free && (u.frag i).state != .free then p else mem i

variable (cfg : Config)

/-- Every row that is not free lists its fragments, so many in all, and no fragment is on two lists. -/
abbrev FragsBy (w : Work) (n : ℕ) (fs : ℕ → List ℕ) : Prop :=
  Threaded cfg.ip4ReassDatagrams cfg.ip4ReassFrags none8 (fun i => (w.frag i).state != .free) n w.fragNext
    (fun d => (w.row d).fragHead) (fun d => (w.row d).state != .free) fs

/-- A row that gathers, or is complete, with its pieces and its gaps. -/
structure Gathers (r : Datagram) (ps : List Piece) (gs : List Gap) : Prop where
  /-- The gaps are what the pieces leave missing. -/
  tiled : Tiled 65535 ps gs
  /-- A held octet stands between any two of them. -/
  wide : Wide gs
  filled : ∀ p∈ps,0<p.len
  /-- The row knows whether the last fragment came. -/
  last : r.totalLen≠0 ↔ ∃ p∈ps,p.more=false
  ends : r.totalLen≠0 → r.totalLen=bound 65535 ps
  first : (∃ p∈ps,p.first=0) → r.firstFrag≠none8
  /-- A row that gathers misses something, a complete one does not. -/
  whole : r.state=.complete ↔ Whole 65535 ps

/-- The tables are in order, and the rows agree with their pieces. -/
structure Ok (s : Store) (fs hs : ℕ → List ℕ) : Prop where
  /-- Fragments are listed by their rows and counted. -/
  frags : FragsBy cfg s.work s.work.held fs
  holes : HolesOk cfg s.work hs
  /-- A row that is not free holds a fragment. -/
  full : ∀ d < cfg.ip4ReassDatagrams,(s.work.row d).state≠.free → fs d≠[]
  /-- A row that does not gather has no hole. -/
  closed : ∀ d < cfg.ip4ReassDatagrams,(s.work.row d).state≠.holding → hs d=[]
  /-- There is at most one hole more than fragments. -/
  room : ∀ d < cfg.ip4ReassDatagrams,(hs d).length≤(fs d).length+1
  /-- A row that gathers, or is complete, agrees with its pieces. -/
  rows : ∀ d < cfg.ip4ReassDatagrams,(s.work.row d).state=.holding ∨ (s.work.row d).state=.complete →
    Gathers (s.work.row d) ((fs d).map s.piece) (s.work.gaps (hs d))

variable {cfg}

theorem frags_le_none : cfg.ip4ReassFrags≤none8 := cfg.ip4ReassFrags_lt.le

section Fit

variable {r : Datagram} {ps : List Piece} {gs : List Gap} {p : Piece}

theorem foldl_max_le {l : List ℕ} {m n : ℕ} : l.foldl max m≤n ↔ m≤n ∧ ∀ x∈l,x≤n := by
  induction l generalizing m with
  | nil => simp
  | cons x l ih =>
    rw [foldl_cons,ih,forall_mem_cons,sup_le_iff,and_assoc]

/-- A fragment all of which was missing and that agrees with its row agrees with the pieces. -/
theorem Gathers.agrees_of_fits (h : Gathers r ps gs) (htp : p.stop≤65535) (hln : 0<p.len)
    (ha : ∀ x,p.Has x → Missing gs x) (he : p.more=false → ∀ q∈ps,q.stop≤p.stop)
    (hsm : p.more=false → r.totalLen≠0 → p.stop=r.totalLen) : Agrees 65535 ps p := by
  have hst : p.stop=p.first+p.len := rfl
  refine ⟨fun q hq x hx => ?_,htp,?_,fun hm => ⟨he hm,fun hex => ?_⟩⟩
  · exact ((h.tiled.missing x).1 (ha x hx.1)).2 ⟨q,hq,hx.2⟩
  · have hin := ((h.tiled.missing (p.stop-1)).1 (ha _ ⟨by omega,by omega⟩)).1
    omega
  · have ht := h.last.2 hex
    rw [←h.ends ht]
    exact hsm hm ht

theorem Gathers.missing_of_agrees (h : Gathers r ps gs) (ha : Agrees 65535 ps p) (x : ℕ) (hx : p.Has x) : Missing gs x := by
  refine (h.tiled.missing x).2 ⟨?_,fun ⟨q,hq,hqx⟩ => ha.clear q hq x ⟨hx,hqx⟩⟩
  have hin := ha.within
  have hlt := hx.2
  omega

end Fit

section File

variable {w v y u : Work} {mem : Memory} {fs hs : ℕ → List ℕ} {d fi : ℕ} {a : HoldArgs}

/-- Where a fragment goes on the list of its row: behind those that begin at its offset or before it. -/
def front (w : Work) (off : ℕ) (l : List ℕ) : List ℕ := l.takeWhile fun j => !decide (off<(w.frag j).off)

/-- The rest of the list. -/
def back (w : Work) (off : ℕ) (l : List ℕ) : List ℕ := l.dropWhile fun j => !decide (off<(w.frag j).off)

theorem front_append_back (w : Work) (off : ℕ) (l : List ℕ) : front w off l++back w off l=l :=
  takeWhile_append_dropWhile

variable {off i n : ℕ} {l : List ℕ}

theorem mem_front (h : i∈front w off l) : (w.frag i).off≤off := by
  have ha : (l.takeWhile fun j => !decide (off<(w.frag j).off)).all (fun j => !decide (off<(w.frag j).off))=true :=
    all_takeWhile
  have hi := all_eq_true.1 ha i h
  simpa using hi

theorem head_back (h : i∈(back w off l).head?) : off<(w.frag i).off := by
  have hi := head?_dropWhile_not (fun j => !decide (off<(w.frag j).off)) l
  rw [show (l.dropWhile fun j => !decide (off<(w.frag j).off)).head?=some i from h] at hi
  simpa using hi

/-- The entries once a fragment is linked between two parts of the list of its row. -/
theorem fragLink_frag {pre post : List ℕ} (hsk : seek w.fragNext cfg.ip4ReassFrags
      (fun j => decide ((w.frag fi).off<(w.frag j).off)) cfg.ip4ReassFrags none8 (w.row d).fragHead=
      (behind none8 pre,post.head?.getD none8)) (hne : behind none8 pre≠fi) (k : ℕ) :
    (fragLink cfg w d fi).frag k=
      if k=fi then {w.frag fi with next := post.head?.getD none8}
      else if k=behind none8 pre ∧ behind none8 pre≠none8 then {w.frag k with next := fi}
      else w.frag k := by
  unfold fragLink
  rw [hsk]
  generalize behind none8 pre=prev at *
  by_cases hn : prev=none8
  · by_cases hk : k=fi <;> simp [setRow,setFrag,hn,hk]
  by_cases hk : k=fi
  · simp [setFrag,hn,hk,Ne.symm hne]
  by_cases hkp : k=prev
  · subst hkp
    simp [setFrag,hn,hk]
  · simp [setFrag,hn,hk,hkp]

theorem fragLink_rest {pre post : List ℕ} (hsk : seek w.fragNext cfg.ip4ReassFrags
      (fun j => decide ((w.frag fi).off<(w.frag j).off)) cfg.ip4ReassFrags none8 (w.row d).fragHead=
      (behind none8 pre,post.head?.getD none8)) : ∃ frag,fragLink cfg w d fi={w with
      frag := frag
      row := update w.row d {w.row d with
        fragHead := if behind none8 pre=none8 then fi else (w.row d).fragHead}} := by
  unfold fragLink
  rw [hsk]
  dsimp only
  split_ifs
  · exact ⟨_,rfl⟩
  · exact ⟨_,by rw [update_eq_self]; rfl⟩

/-- What a row learns from a fragment. -/
def Datagram.learned (r : Datagram) (a : HoldArgs) (f : ℕ) : Datagram :=
  {r with
    totalLen := if Ip4.mf a.hdr then r.totalLen else Ip4.fragOffsetBytes a.hdr+dataLen a.hdr
    firstFrag := if Ip4.fragOffsetBytes a.hdr=0 then f else r.firstFrag}

/-- A row without a hole that has its first fragment is complete. -/
def Datagram.settled (r : Datagram) : Datagram :=
  if r.holeHead=none8 ∧ r.firstFrag≠none8 then {r with state := .complete,cursor := r.fragHead} else r

theorem learn_eq (x : Work) (d f : ℕ) (a : HoldArgs) :
    (let y := if mf a.hdr then x
      else x.setRow d {x.row d with totalLen := fragOffsetBytes a.hdr+dataLen a.hdr}
    if fragOffsetBytes a.hdr=0 then y.setRow d {y.row d with firstFrag := f} else y)=x.setRow d ((x.row d).learned a f) := by
  unfold learned
  cases mf a.hdr with
  | true =>
    by_cases ho : fragOffsetBytes a.hdr=0
    · rw [if_pos ho,if_pos ho]
      rfl
    rw [if_neg ho,if_neg ho]
    unfold setRow
    rw [if_pos rfl,if_pos rfl,update_eq_self]
  | false =>
    by_cases ho : fragOffsetBytes a.hdr=0
    · rw [if_pos ho,if_pos ho,if_neg nofun]
      unfold setRow
      simp only [update_self,update_idem]
      rfl
    · rw [if_neg ho,if_neg ho,if_neg nofun]
      rfl

/-- The tables with a fragment in its entry, linked into the list of its row. -/
def entered (cfg : Config) (w : Work) (d f : ℕ) (a : HoldArgs) : Work :=
  fragLink cfg (w.setFrag f {w.frag f with
    desc := a.desc,off := Ip4.fragOffsetBytes a.hdr,len := dataLen a.hdr,hdrLen := Ip4.hdrLen a.hdr}) d f

/-- What `fileFrag` does at last: a row without a hole is complete, and reported. -/
def settle (y : Work) (d : ℕ) : Work :=
  let full := decide ((y.row d).holeHead=none8 ∧ (y.row d).firstFrag≠none8)
  let w := if full then y.setRow d {y.row d with state := .complete,cursor := (y.row d).fragHead} else y
  {w with io := {w.io with
    complete := full
    index := d
    state := (w.row d).state
    totalLen := (w.row d).totalLen
    status := .ok}}

theorem settle_eq (y : Work) (d : ℕ) :
    ∃ io,settle y d={y with row := update y.row d (y.row d).settled,io := io} ∧ io.status=.ok ∧ io.index=d ∧
      io.complete=decide ((y.row d).holeHead=none8 ∧ (y.row d).firstFrag≠none8) ∧
      io.totalLen=(y.row d).totalLen := by
  unfold settle settled
  by_cases hfl : (y.row d).holeHead=none8 ∧ (y.row d).firstFrag≠none8
  · rw [decide_eq_true hfl,if_pos hfl]
    refine ⟨_,rfl,rfl,rfl,rfl,?_⟩
    unfold setRow
    simp only [if_true,update_self]
  · rw [decide_eq_false hfl,if_neg hfl,update_eq_self]
    exact ⟨_,rfl,rfl,rfl,rfl,rfl⟩

/-- `fileFrag` links the fragment, and the row learns from it and settles. -/
theorem fileFrag_eq (cfg : Config) (w : Work) (d f : ℕ) (a : HoldArgs) :
    fileFrag cfg w d f a (fragOffsetBytes a.hdr) (dataLen a.hdr) (hdrLen a.hdr) (mf a.hdr)=
      settle (setRow {entered cfg w d f a with held := (entered cfg w d f a).held+1} d
        (((entered cfg w d f a).row d).learned a f)) d :=
  congrArg (settle · d) (learn_eq {entered cfg w d f a with held := (entered cfg w d f a).held+1} d f a)

variable (cfg)

/-- A row ready to take a fragment, held or just opened, with its holes. -/
structure Seat (w v : Work) (mem : Memory) (fs hs : ℕ → List ℕ) (d : ℕ) (hl : List ℕ) : Prop where
  row_lt : d < cfg.ip4ReassDatagrams
  state : (v.row d).state=.holding
  ready : v.ready=w.ready
  frag : v.frag=w.frag
  held : v.held=w.held
  rows : ∀ k,k≠d → v.row k=w.row k
  other : ∀ i,i∉hs d → (w.hole i).state≠.free → v.hole i=w.hole i
  chain : Chain w.fragNext cfg.ip4ReassFrags none8 (v.row d).fragHead (fs d)
  holes : HolesOk cfg v (update hs d hl)
  room : hl.length≤(fs d).length+1
  gathers : Gathers (v.row d) ((fs d).map (Store.piece ⟨w,mem⟩)) (v.gaps hl)

/-- A fragment went into a row: from the row as it was or was opened, with what it then missed. -/
structure Filed (w u : Work) (a : HoldArgs) (fs hs : ℕ → List ℕ) (d fi : ℕ) (r : Datagram) (gs : List Gap)
    (pre post m : List ℕ) : Prop where
  slot_lt : fi < cfg.ip4ReassFrags
  free : (w.frag fi).state=.free
  /-- It went behind those that begin before it. -/
  split : fs d=pre++post
  before : ∀ i∈pre,(w.frag i).off≤Ip4.fragOffsetBytes a.hdr
  after : ∀ i∈post.head?,Ip4.fragOffsetBytes a.hdr<(w.frag i).off
  ready : u.ready=w.ready
  /-- The row lists it with those it held. -/
  held : u.held=w.held+1
  frags : FragsBy cfg u (w.held+1) (update fs d (pre++fi::post))
  entry : ∃ n,u.frag fi=⟨a.desc,Ip4.fragOffsetBytes a.hdr,dataLen a.hdr,Ip4.hdrLen a.hdr,n,.holding⟩
  others : ∀ k,k≠fi → ∃ n,u.frag k={w.frag k with next := n}
  rows : ∀ k,k≠d → u.row k=w.row k
  row : ∃ fh hh,u.row d=({r.learned a fi with fragHead := fh,holeHead := hh} : Datagram).settled ∧ (hh=none8 ↔ m=[])
  /-- It is cut out of what the row missed. -/
  holes : HolesOk cfg u (update hs d m)
  gaps : u.gaps m=cut a.piece.first a.piece.stop a.piece.more gs
  other : ∀ i,i∉hs d → (w.hole i).state≠.free → u.hole i=w.hole i
  status : u.io.status=.ok
  index : u.io.index=d
  complete : u.io.complete=decide (m=[] ∧ (r.learned a fi).firstFrag≠none8)
  totalLen : u.io.totalLen=(r.learned a fi).totalLen

variable {cfg}

theorem fragAlloc_some (h : FragsBy cfg w n fs) (hlt : n < cfg.ip4ReassFrags) (hv : v.frag=w.frag) :
    ∃ i < cfg.ip4ReassFrags,(w.frag i).state=.free ∧
      fragAlloc cfg v=some (v.setFrag i {w.frag i with state := .holding,next := none8},i) := by
  obtain ⟨i,hi⟩ := h.kept.free hlt
  obtain ⟨hfr,hlt',-⟩ := firstIndex_some.1 hi
  have hsm : (fun k => !(w.frag k).state != .free)=fun k => (w.frag k).state==.free := by
    funext k
    simp [bne]
  refine ⟨i,hlt',by simpa using hfr,?_⟩
  unfold fragAlloc
  rw [hv,←hsm,hi]
  rfl

/-- There is a hole for every piece as long as not all fragments are in use. -/
theorem holes_lt {hl : List ℕ} (h : Ok cfg ⟨w,mem⟩ fs hs) (hlt : w.held < cfg.ip4ReassFrags)
    (hr : hl.length≤(fs d).length+1) : (flat cfg.ip4ReassDatagrams (update hs d hl)).length < cfg.ip4ReassHoles := by
  have hle : (flat cfg.ip4ReassDatagrams (update hs d hl)).length≤
      (flat cfg.ip4ReassDatagrams fs).length+(range cfg.ip4ReassDatagrams).countP fun _ => true := by
    refine flat_length_le fun k hk => ?_
    by_cases hkd : k=d
    · rw [hkd,update_self]
      exact hr
    · rw [update_of_ne hkd]
      exact h.room k hk
  have hc : (range cfg.ip4ReassDatagrams).countP (fun _ => true)=cfg.ip4ReassDatagrams := by simp
  have hh : w.held=(flat cfg.ip4ReassDatagrams fs).length := h.frags.kept.count_eq
  have hsz := cfg.ip4ReassHoles_ge
  omega

theorem Gathers.small {r : Datagram} {ps : List Piece} (h : Gathers r ps (w.gaps l)) : ∀ k∈l,(w.hole k).last<2^16 := by
  intro k hk
  have hm : w.gap k∈w.gaps l := mem_map_of_mem hk
  have hfl := h.tiled.apart.filled _ hm
  have hlt := ((h.tiled.missing (w.gap k).last).1 ⟨w.gap k,hm,hfl,le_rfl⟩).1
  have hle := h.tiled.bound_le
  have hls : (w.gap k).last=(w.hole k).last := rfl
  omega

theorem entered_linked (h : FragsBy cfg w n fs) (hd : d < cfg.ip4ReassDatagrams) (hfi : fi < cfg.ip4ReassFrags)
    (hfr : (w.frag fi).state=.free) (hfrag : ∀ k,k≠fi → y.frag k=w.frag k) (hnw : (y.frag fi).state=.holding)
    (hc : Chain w.fragNext cfg.ip4ReassFrags none8 (y.row d).fragHead (fs d)) :
    ∃ pre post,fs d=pre++post ∧ (∀ i∈pre,(w.frag i).off≤fragOffsetBytes a.hdr) ∧
      (∀ i∈post.head?,fragOffsetBytes a.hdr<(w.frag i).off) ∧ (∀ k,(entered cfg y d fi a).frag k=
        if k=fi then ⟨a.desc,fragOffsetBytes a.hdr,dataLen a.hdr,hdrLen a.hdr,post.head?.getD none8,.holding⟩
        else if k=behind none8 pre ∧ behind none8 pre≠none8 then {w.frag k with next := fi}
        else w.frag k) ∧
      ∃ frag,entered cfg y d fi a={y with
        frag := frag
        row := update y.row d {y.row d with
          fragHead := if behind none8 pre=none8 then fi else (y.row d).fragHead}} := by
  have hn : ∀ k∈fs d,k≠fi := by
    rintro k hk rfl
    have hu := (h.kept.used_of_mem hd hk).2
    simp [hfr] at hu
  obtain ⟨z,hz⟩ : ∃ z,y.setFrag fi {y.frag fi with
      desc := a.desc,off := fragOffsetBytes a.hdr,len := dataLen a.hdr,hdrLen := hdrLen a.hdr}=z := ⟨_,rfl⟩
  have hzk : ∀ k,k≠fi → z.frag k=w.frag k := by
    intro k hk
    rw [←hz]
    exact (update_of_ne hk _ _).trans (hfrag k hk)
  have hzf : z.frag fi=⟨a.desc,fragOffsetBytes a.hdr,dataLen a.hdr,hdrLen a.hdr,(y.frag fi).next,.holding⟩ := by
    rw [←hz,←hnw]
    exact update_self _ _ _
  have hzr : z.row=y.row := by
    rw [←hz]
    rfl
  have hzc : Chain z.fragNext cfg.ip4ReassFrags none8 (z.row d).fragHead (fs d) := by
    rw [hzr]
    refine Path.congr hc fun k hk => ?_
    unfold fragNext
    rw [hzk k (hn k hk)]
  have hsk : seek z.fragNext cfg.ip4ReassFrags (fun j => decide ((z.frag fi).off<(z.frag j).off)) cfg.ip4ReassFrags
      none8 (z.row d).fragHead=
      ((front z (z.frag fi).off (fs d)).getLast?.getD none8,(back z (z.frag fi).off (fs d)).head?.getD none8) :=
    seek_chain frags_le_none hzc (hzc.length_le frags_le_none)
  have hsp := front_append_back z (z.frag fi).off (fs d)
  have ho : (z.frag fi).off=fragOffsetBytes a.hdr := by rw [hzf]
  have hpr : ∀ i∈front z (z.frag fi).off (fs d),(w.frag i).off≤fragOffsetBytes a.hdr := by
    intro i hi
    have hle := mem_front hi
    rwa [ho,hzk i (hn i (by rw [←hsp]; exact mem_append_left _ hi))] at hle
  have hp : ∀ i∈(back z (z.frag fi).off (fs d)).head?,fragOffsetBytes a.hdr<(w.frag i).off := by
    intro i hi
    have hlt := head_back hi
    rwa [ho,hzk i (hn i (by rw [←hsp]; exact mem_append_right _ (mem_of_mem_head? hi)))] at hlt
  have he : entered cfg y d fi a=fragLink cfg z d fi := by
    rw [←hz]
    rfl
  have hne : behind none8 (front z (z.frag fi).off (fs d))≠fi :=
    h.behind_ne_free frags_le_none hd hsp.symm hfi (by simpa using hfr)
  obtain ⟨frag,hr⟩ := fragLink_rest hsk
  have hln := fragLink_frag hsk hne
  generalize front z (z.frag fi).off (fs d)=pre at *
  generalize back z (z.frag fi).off (fs d)=post at *
  refine ⟨pre,post,hsp.symm,hpr,hp,fun k => ?_,frag,?_⟩
  · rw [he,hln,hzf]
    by_cases hk : k=fi
    · rw [if_pos hk,if_pos hk]
    · rw [if_neg hk,if_neg hk,hzk k hk]
  · rw [he,hr,hzr,←hz]
    rfl

theorem entered_fragsBy {pre post : List ℕ} (h : FragsBy cfg w n fs) (hd : d < cfg.ip4ReassDatagrams)
    (hfi : fi < cfg.ip4ReassFrags) (hfree : (w.frag fi).state=.free) (hsp : fs d=pre++post) {start : ℕ}
    (hc : Chain w.fragNext cfg.ip4ReassFrags none8 start (fs d)) (hr : ∀ k,k≠d → u.row k=w.row k)
    (hlv : (u.row d).state≠.free) (hh : (u.row d).fragHead=if behind none8 pre=none8 then fi else start)
    (hfr : ∀ k,u.frag k=
      if k=fi then ⟨a.desc,fragOffsetBytes a.hdr,dataLen a.hdr,hdrLen a.hdr,post.head?.getD none8,.holding⟩
      else if k=behind none8 pre ∧ behind none8 pre≠none8 then {w.frag k with next := fi}
      else w.frag k) : FragsBy cfg u (n+1) (update fs d (pre++fi::post)) := by
  refine h.putIn frags_le_none hd hsp hc hfi (by simpa using hfree) (fun k hk => by rw [hr k hk])
    (by simpa using hlv) (fun k hk => by rw [hr k hk]) hh (fun k _ => ?_) (fun k hk => ?_) ?_
  · rw [hfr,update_apply]
    split_ifs <;> rfl
  · unfold fragNext
    rw [hfr,if_neg hk]
    split_ifs <;> rfl
  · unfold fragNext
    rw [hfr,if_pos rfl]

theorem Datagram.settled_rest (r : Datagram) : ∃ st c,r.settled={r with state := st,cursor := c} := by
  unfold settled
  split_ifs
  · exact ⟨_,_,rfl⟩
  · exact ⟨r.state,r.cursor,rfl⟩

theorem Datagram.settled_state (r : Datagram) :
    r.settled.state=if r.holeHead=none8 ∧ r.firstFrag≠none8 then .complete else r.state := by
  unfold settled
  split_ifs <;> rfl

/-- A fragment that agrees with the pieces of a row is filed in it. -/
theorem Seat.filed {hl : List ℕ} (h : Ok cfg ⟨w,mem⟩ fs hs) (hse : Seat cfg w v mem fs hs d hl) (opened : Bool)
    (hrm : w.held < cfg.ip4ReassFrags) (hlen : 0<dataLen a.hdr) :
    ∃ fi pre post m,Filed cfg w (takeInto cfg v d opened a) a fs hs d fi (v.row d) (v.gaps hl) pre post m := by
  have hd := hse.row_lt
  have hstop : fragOffsetBytes a.hdr+dataLen a.hdr-1+1=a.piece.stop := by
    show _=fragOffsetBytes a.hdr+dataLen a.hdr
    omega
  obtain ⟨fi,hfi,hfr,ha⟩ := fragAlloc_some h.frags hrm hse.frag
  unfold takeInto
  rw [ha]
  dsimp only
  generalize hx : v.setFrag fi {w.frag fi with state := .holding,next := none8}=x
  have hxh : x.hole=v.hole := by
    rw [←hx]
    rfl
  have hxr : x.row=v.row := by
    rw [←hx]
    rfl
  have hxg : x.gaps hl=v.gaps hl := by
    unfold gaps gap
    rw [hxh]
  have hxholes : HolesOk cfg x (update hs d hl) := by
    rw [←hx]
    exact hse.holes
  have hxs : (x.row d).state≠.free := by
    rw [hxr,hse.state]
    decide
  have hg := hse.gathers
  rw [←hxg] at hg
  obtain ⟨y,m,hfl,hw,hgp⟩ := fillHoles_worked hxholes hd hxs (fragOffsetBytes a.hdr)
    (fragOffsetBytes a.hdr+dataLen a.hdr-1) (mf a.hdr)
    (by rw [update_self]; exact hg.tiled.apart) (by rw [update_self]; exact hg.small)
    (holes_lt h hrm hse.room)
  rw [update_self,hstop,hxg] at hgp
  have hwok := hw.ok
  rw [update_idem] at hwok
  have hys : (y.row d).state=.holding := by
    rw [hw.rest.state,hxr]
    exact hse.state
  have he : (y.row d).holeHead=none8 ↔ m=[] := by
    have hc := hwok.chain d hd (by rw [hys]; rfl)
    rw [update_self] at hc
    constructor
    · intro hn
      exact (hc.nil_iff holes_le_none).1 (by rw [hn]; exact holes_le_none)
    · rintro rfl
      exact hc
  have hyt : ∀ i,i∉hs d → (w.hole i).state≠.free → y.hole i=w.hole i := by
    intro i hi hiu
    have hsm := hse.other i hi hiu
    refine (hw.other i ?_ (by rw [hxh,hsm]; exact hiu)).trans (by rw [hxh]; exact hsm)
    rw [update_self]
    exact h.holes.kept.off_list hse.holes.kept hd hi (by simpa using hiu)
  obtain ⟨hole,head,hy⟩ := hw.rest
  have hyr : y.row d={v.row d with holeHead := (y.row d).holeHead} := by
    rw [hy,←hx]
    simp only [update_self]
    rfl
  have hyne : ∀ k,k≠d → y.row k=w.row k := by
    intro k hk
    rw [hy]
    refine (update_of_ne hk _ _).trans ?_
    rw [hxr]
    exact hse.rows k hk
  have hyf : ∀ k,k≠fi → y.frag k=w.frag k := by
    intro k hk
    rw [hy,←hx,←hse.frag]
    exact update_of_ne hk _ _
  have hyfi : (y.frag fi).state=.holding := by
    rw [hy,←hx]
    simp only [setFrag,update_self]
  have hyh : y.held=w.held := by
    rw [hy,←hx,←hse.held]
    rfl
  have hyc : Chain w.fragNext cfg.ip4ReassFrags none8 (y.row d).fragHead (fs d) := by
    rw [hyr]
    exact hse.chain
  rw [hfl]
  simp only [Bool.not_true,Bool.false_eq_true,if_false]
  rw [fileFrag_eq]
  obtain ⟨pre,post,hsp,hpre,hp,hfrag,frag,hent⟩ :=
    entered_linked (a := a) h.frags hd hfi hfr hyf hyfi hyc
  generalize entered cfg y d fi a=z at *
  obtain ⟨fh,hfh⟩ : ∃ fh,(if behind none8 pre=none8 then fi else (y.row d).fragHead)=fh := ⟨_,rfl⟩
  rw [hfh] at hent
  have hzr : z.row d={y.row d with fragHead := fh} := by
    rw [hent]
    exact update_self _ _ _
  have hzne : ∀ k,k≠d → z.row k=w.row k := by
    intro k hk
    rw [hent]
    exact (update_of_ne hk _ _).trans (hyne k hk)
  have hzh : z.held=w.held := by
    rw [hent]
    exact hyh
  have hz : z.hole=y.hole := by rw [hent]
  have hlr : (z.row d).learned a fi={(v.row d).learned a fi with fragHead := fh,holeHead := (y.row d).holeHead} := by
    rw [hzr,hyr]
    rfl
  obtain ⟨io,hu,hst,hidx,hcm,htot⟩ := settle_eq (setRow {z with held := z.held+1} d ((z.row d).learned a fi)) d
  rw [hlr] at hu hcm htot ⊢
  rw [hu]
  have hsl : ∀ r : Datagram,(setRow {z with held := z.held+1} d r).row d=r := fun r => update_self _ _ _
  rw [hsl] at hcm htot ⊢
  generalize hr : ({(v.row d).learned a fi with fragHead := fh,holeHead := (y.row d).holeHead} : Datagram)=r at *
  have hrf : r.firstFrag=((v.row d).learned a fi).firstFrag := by rw [←hr]
  have hrh : r.holeHead=(y.row d).holeHead := by rw [←hr]
  have hrhead : r.fragHead=fh := by rw [←hr]
  have hrs : r.state=.holding := by
    rw [←hr]
    exact hse.state
  obtain ⟨st,c,hsettled⟩ := r.settled_rest
  have hlv : r.settled.state≠.free := by
    rw [r.settled_state,hrs]
    split_ifs <;> decide
  -- the rows as they are in the end
  obtain ⟨rows,hro⟩ : ∃ rows,update (setRow {z with held := z.held+1} d r).row d r.settled=rows := ⟨_,rfl⟩
  have hrow : ∀ k,k≠d → rows k=w.row k := by
    intro k hk
    rw [←hro]
    refine (update_of_ne hk _ _).trans ?_
    exact (update_of_ne hk _ _).trans (hzne k hk)
  have hrw : rows d=r.settled := by
    rw [←hro]
    exact update_self _ _ _
  rw [hro]
  refine ⟨fi,pre,post,m,hfi,hfr,hsp,hpre,hp,?_,?_,?_,?_,fun k hk => ?_,hrow,⟨fh,(y.row d).holeHead,?_,he⟩,?_,?_,
    fun i hi hiu => ?_,hst,hidx,?_,?_⟩
  · show z.ready=w.ready
    rw [hent,←hse.ready]
    rw [hy,←hx]
    rfl
  · show z.held+1=w.held+1
    rw [hzh]
  · refine entered_fragsBy h.frags hd hfi hfr hsp hyc hrow ?_ ?_ hfrag
    · show (rows d).state≠.free
      rw [hrw]
      exact hlv
    · show (rows d).fragHead=_
      rw [hrw,hsettled,hfh]
      exact hrhead
  · refine ⟨post.head?.getD none8,(hfrag fi).trans ?_⟩
    rw [if_pos rfl]
  · show ∃ n,z.frag k=_
    rw [hfrag,if_neg hk]
    split_ifs
    · exact ⟨fi,rfl⟩
    · exact ⟨(w.frag k).next,rfl⟩
  · show rows d=_
    rw [hrw,hr]
  · refine Threaded.congr hwok (fun k => ?_) (fun k => ?_) rfl (fun i _ => ?_) fun i _ => ?_
    · show ((rows k).state != .free)=_
      by_cases hk : k=d
      · rw [hk,hrw,hys]
        exact (bne_iff_ne.2 hlv).trans rfl
      · rw [hrow k hk,hyne k hk]
    · show (rows k).holeHead=_
      by_cases hk : k=d
      · rw [hk,hrw,hsettled]
        exact hrh
      · rw [hrow k hk,hyne k hk]
    · show ((z.hole i).state != .free)=_
      rw [hz]
    · show (z.hole i).next=_
      rw [hz]
      rfl
  · show m.map z.gap=_
    refine Eq.trans ?_ hgp
    refine map_congr_left fun i _ => ?_
    unfold gap
    rw [hz]
  · show z.hole i=_
    rw [hz]
    exact hyt i hi hiu
  · rw [hcm,hrh,hrf]
    exact decide_eq_decide.2 (and_congr_left' he)
  · rw [htot,←hr]

section FiledOk

variable {hl pre post m : List ℕ} {r : Datagram} {gs : List Gap}

variable (hf : Filed cfg w u a fs hs d fi r gs pre post m)
include hf

theorem Filed.learned : (u.row d).totalLen=(r.learned a fi).totalLen ∧ (u.row d).firstFrag=(r.learned a fi).firstFrag ∧
      (u.row d).state=if m=[] ∧ (r.learned a fi).firstFrag≠none8 then .complete else r.state := by
  obtain ⟨fh,hh,hrw,he⟩ := hf.row
  obtain ⟨st,c,hr⟩ := ({r.learned a fi with fragHead := fh,holeHead := hh} : Datagram).settled_rest
  rw [hrw]
  refine ⟨by rw [hr],by rw [hr],?_⟩
  rw [settled_state]
  simp only [he]
  rfl

theorem Filed.piece_new : Store.piece ⟨u,filedIn w u a.hdr mem⟩ fi=a.piece := by
  obtain ⟨n,he⟩ := hf.entry
  unfold Store.piece HoldArgs.piece filedIn
  dsimp only
  rw [he,hf.free]
  rfl

theorem Filed.piece_old {k : ℕ} (hk : (w.frag k).state≠.free) :
    Store.piece ⟨u,filedIn w u a.hdr mem⟩ k=Store.piece ⟨w,mem⟩ k := by
  have hne : k≠fi := by
    rintro rfl
    exact hk hf.free
  obtain ⟨n,he⟩ := hf.others k hne
  have hst : ((w.frag k).state==.free)=false := beq_eq_false_iff_ne.2 hk
  unfold Store.piece filedIn
  dsimp only
  rw [he,hst]
  rfl

theorem Filed.pieces (h : Ok cfg ⟨w,mem⟩ fs hs) (hd : d < cfg.ip4ReassDatagrams) :
    (pre++fi::post).map (Store.piece ⟨u,filedIn w u a.hdr mem⟩)=
      pre.map (Store.piece ⟨w,mem⟩)++a.piece::post.map (Store.piece ⟨w,mem⟩) := by
  have hus : ∀ i∈pre++post,(w.frag i).state≠.free := by
    intro i hi
    have hu := (h.frags.kept.used_of_mem hd (hf.split ▸ hi)).2
    exact bne_iff_ne.1 hu
  rw [map_append,map_cons,hf.piece_new,map_congr_left fun i hi => hf.piece_old (hus i (mem_append_left _ hi)),
    map_congr_left fun i hi => hf.piece_old (hus i (mem_append_right _ hi))]

omit hf

theorem Filed.gathers (h : Ok cfg ⟨w,mem⟩ fs hs) (hst : Seat cfg w v mem fs hs d hl)
    (hag : Agrees 65535 ((fs d).map (Store.piece ⟨w,mem⟩)) a.piece) (hln : 0<dataLen a.hdr)
    (hf : Filed cfg w u a fs hs d fi (v.row d) (v.gaps hl) pre post m) :
    Gathers (u.row d) ((pre++fi::post).map (Store.piece ⟨u,filedIn w u a.hdr mem⟩)) (u.gaps m) := by
  have hg := hst.gathers
  rw [hf.pieces h hst.row_lt,hf.gaps]
  rw [hf.split,map_append] at hg hag
  obtain ⟨htt,hfr,hstate⟩ := hf.learned
  have hpr : ∀ q∈pre.map (Store.piece ⟨w,mem⟩),q.first≤a.piece.first := by
    intro q hq
    obtain ⟨i,hi,rfl⟩ := mem_map.1 hq
    exact hf.before i hi
  -- those behind it begin no earlier than the first of them
  have hps : ∀ q∈post.map (Store.piece ⟨w,mem⟩),a.piece.first≤q.first := by
    have ho := (pairwise_append.1 hg.tiled.order).2.1
    have ha := hf.after
    cases post with
    | nil => exact fun q hq => (not_mem_nil hq).elim
    | cons i post =>
      have hi : a.piece.first≤(Store.piece ⟨w,mem⟩ i).first := (ha i rfl).le
      intro q hq
      rcases mem_cons.1 hq with rfl|hq
      · exact hi
      · exact hi.trans ((pairwise_cons.1 ho).1 q hq)
  generalize pre.map (Store.piece ⟨w,mem⟩)=ps at *
  generalize post.map (Store.piece ⟨w,mem⟩)=qs at *
  have hmm : ∀ q,q∈ps++a.piece::qs ↔ q=a.piece ∨ q∈ps++qs := by
    intro q
    simp only [mem_append,mem_cons]
    tauto
  have ht := hg.tiled.file hag hpr hps
  have hb := hg.tiled.bound_insert hag
  rw [←hg.tiled.cut_eq_take hg.wide hag hln] at ht
  have hk : (∃ q∈ps++a.piece::qs,q.first=0) → (u.row d).firstFrag≠none8 := by
    rintro ⟨q,hq,hz⟩
    rw [hfr]
    unfold Datagram.learned
    dsimp only
    split_ifs with hof
    · exact (hf.slot_lt.trans_le frags_le_none).ne
    refine hg.first ⟨q,((hmm q).1 hq).resolve_left ?_,hz⟩
    rintro rfl
    exact hof hz
  refine ⟨ht,hg.wide.cut hg.tiled.apart.filled (Nat.lt_add_of_pos_right hln),fun q hq => ?_,?_,fun hne => ?_,hk,?_⟩
  · rcases (hmm q).1 hq with rfl|hq
    · exact hln
    · exact hg.filled q hq
  · rw [htt]
    unfold Datagram.learned
    dsimp only
    split_ifs with hm
    · rw [hg.last]
      refine exists_congr fun q => ⟨fun hq => ⟨(hmm q).2 (.inr hq.1),hq.2⟩,fun hq => ⟨((hmm q).1 hq.1).resolve_left ?_,hq.2⟩⟩
      rintro rfl
      exact absurd (hm.symm.trans hq.2) (by decide)
    · exact iff_of_true (by omega) ⟨a.piece,(hmm _).2 (.inl rfl),Bool.eq_false_of_not_eq_true hm⟩
  · rw [htt] at hne ⊢
    unfold Datagram.learned at hne ⊢
    dsimp only at hne ⊢
    rw [hb]
    split_ifs at hne ⊢ with hm hm' hm'
    · exact hg.ends hne
    · exact absurd hm hm'
    · exact absurd hm' hm
    · rfl
  · rw [hstate,←ht.nil_iff,←hf.gaps,Work.gaps,map_eq_nil_iff]
    constructor
    · intro hc
      split_ifs at hc with hfl
      · exact hfl.1
      · rw [hst.state] at hc
        cases hc
    · intro hm
      have hw := (ht.nil_iff).1 (by rw [←hf.gaps,hm]; rfl)
      obtain ⟨⟨q,hq,hqm⟩,hal⟩ := hw
      have hstop := ht.last q hq hqm
      have hql : 0<q.stop := by
        have hpo : 0<q.len := by
          rcases (hmm q).1 hq with rfl|hq
          · exact hln
          · exact hg.filled q hq
        exact Nat.lt_of_lt_of_le hpo (Nat.le_add_left _ _)
      obtain ⟨p,hp,hz⟩ := hal 0 (by omega)
      rw [if_pos ⟨hm,hfr ▸ hk ⟨p,hp,Nat.le_zero.1 hz.1⟩⟩]

/-- Filing a fragment that agrees with the pieces of its row keeps the tables in order. -/
theorem Filed.ok (h : Ok cfg ⟨w,mem⟩ fs hs) (hst : Seat cfg w v mem fs hs d hl)
    (hag : Agrees 65535 ((fs d).map (Store.piece ⟨w,mem⟩)) a.piece) (hln : 0<dataLen a.hdr)
    (hf : Filed cfg w u a fs hs d fi (v.row d) (v.gaps hl) pre post m) :
    Ok cfg ⟨u,filedIn w u a.hdr mem⟩ (update fs d (pre++fi::post)) (update hs d m) := by
  have hg := hf.gathers h hst hag hln
  refine ⟨?_,hf.holes,fun k hk hu => ?_,fun k hk hu => ?_,fun k hk => ?_,fun k hk hu => ?_⟩
  · rw [hf.held]
    exact hf.frags
  · by_cases hkd : k=d
    · rw [hkd,update_self]
      exact append_ne_nil_of_right_ne_nil _ (cons_ne_nil _ _)
    · rw [update_of_ne hkd]
      rw [show u.row k=w.row k from hf.rows k hkd] at hu
      exact h.full k hk hu
  · by_cases hkd : k=d
    · rw [hkd] at hu ⊢
      rw [update_self]
      have hstate := hf.learned.2.2
      by_contra hm
      rw [if_neg fun hfl => hm hfl.1,hst.state] at hstate
      exact hu hstate
    · rw [update_of_ne hkd]
      rw [show u.row k=w.row k from hf.rows k hkd] at hu
      exact h.closed k hk hu
  · by_cases hkd : k=d
    · rw [hkd,update_self,update_self]
      have hc : (cut a.piece.first a.piece.stop a.piece.more (v.gaps hl)).length≤(v.gaps hl).length+1 :=
        hst.gathers.tiled.apart.length_cut
      rw [←hf.gaps,Work.gaps,Work.gaps,length_map,length_map] at hc
      have hr := hst.room
      rw [hf.split] at hr
      simp only [length_append,length_cons] at hr ⊢
      omega
    · rw [update_of_ne hkd,update_of_ne hkd]
      exact h.room k hk
  · by_cases hkd : k=d
    · rw [hkd,update_self,update_self]
      exact hg
    · rw [update_of_ne hkd,update_of_ne hkd]
      have hrw : u.row k=w.row k := hf.rows k hkd
      rw [show (Store.mk u (filedIn w u a.hdr mem)).work.row k=w.row k from hrw] at hu ⊢
      have ho := h.rows k hk hu
      have hp : (fs k).map (Store.piece ⟨u,filedIn w u a.hdr mem⟩)=(fs k).map (Store.piece ⟨w,mem⟩) :=
        map_congr_left fun i hi => hf.piece_old (bne_iff_ne.1 (h.frags.kept.used_of_mem hk hi).2)
      have hgp : u.gaps (hs k)=w.gaps (hs k) := by
        refine map_congr_left fun i hi => ?_
        have hin : i∉hs d := fun hid => hkd (h.holes.kept.row_unique hk hst.row_lt hi hid)
        unfold gap
        rw [hf.other i hin (bne_iff_ne.1 (h.holes.kept.used_of_mem hk hi).2)]
      rw [hp]
      rw [hgp]
      exact ho

end FiledOk

end File

end IdemIp.Ip4Reass
