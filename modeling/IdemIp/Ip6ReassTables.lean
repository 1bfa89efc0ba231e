import IdemIp.Ip6Reass

/-!
# The tables of the IPv6 reassembler over whole runs

Every row in use lists its fragments and its holes, and its holes are what its
fragments leave missing. One call either leaves the tables as good as they were,
or files the fragment in one row, whose holes are then cut.
-/

namespace IdemIp.Ip6Reass

open List hiding take
open IndexChain Slots Gaps Work Datagram Function

variable (cfg : Config)

/-- Every row in use lists its fragments, and no fragment is on two lists. -/
abbrev FragsOk (w : Work) (fs : ℕ → List ℕ) : Prop :=
  Threaded cfg.ip6ReassDatagrams cfg.ip6ReassFrags none8 (fun i => (w.frag i).used) w.frags w.fragNext
    (fun d => (w.row d).fragHead) (fun d => (w.row d).used) fs

variable {cfg}

theorem frags_le_none : cfg.ip6ReassFrags≤none8 := cfg.ip6ReassFrags_lt.le

theorem Datagram.learned_eq (r : Datagram) (f : Fields) : r.learned f={r with
    fragCount := r.fragCount+1
    nextHdr := if f.offset=0 then f.nextHdr else r.nextHdr
    firstSeen := decide (f.offset=0) || r.firstSeen
    fragEnd := if f.more then r.fragEnd else f.fragEnd
    lastSeen := !f.more || r.lastSeen} := by
  unfold learned
  split_ifs <;> simp [*]

variable {v : Work} {pre post : List ℕ} {k o n p q : ℕ}

section FileIn

variable {w : Work} {fs : ℕ → List ℕ} {d fi prev : ℕ} {a : InputArgs} {f : Fields}

theorem fileIn_frag (hne : prev≠fi) (k : ℕ) : (fileIn w d fi prev a f).frag k=
      if k=fi then
        ⟨a.desc,f.offset,f.fragLen,f.hdrLen,if prev=none8 then (w.row d).fragHead else (w.frag prev).next,(w.frag fi).used⟩
      else if k=prev ∧ prev≠none8 then {w.frag prev with next := fi} else w.frag k := by
  unfold fileIn fragLink
  by_cases hn : prev=none8
  · by_cases hk : k=fi <;> simp [setRow,setFrag,hn,hk]
  by_cases hk : k=fi
  · simp [setRow,setFrag,hn,hk,hne,Ne.symm hne]
  · simp [setRow,setFrag,update_apply,hn,hk,hne]

theorem fileIn_row (k : ℕ) : (fileIn w d fi prev a f).row k=
      if k=d then ({w.row d with fragHead := if prev=none8 then fi else (w.row d).fragHead} : Datagram).learned f
      else w.row k := by
  unfold fileIn fragLink
  by_cases hn : prev=none8 <;> by_cases hk : k=d <;> simp [setRow,setFrag,hn,hk]

theorem fileIn_rest : ∃ frag row io,fileIn w d fi prev a f={w with frag := frag,row := row,io := io} ∧
    io.status=w.io.status ∧ io.complete=w.io.complete := by
  unfold fileIn fragLink
  split_ifs <;> exact ⟨_,_,_,rfl,rfl,rfl⟩

/-- A fragment taken and filed in a row between two parts of its list, the row held or just opened. -/
theorem fileIn_fragsOk (h : FragsOk cfg w fs) (hd : d < cfg.ip6ReassDatagrams)
    (hfi : fi < cfg.ip6ReassFrags) (hfree : (w.frag fi).used=false) (hf : ∀ k,k≠fi → v.frag k=w.frag k)
    (hn : (v.frag fi).used) (hcn : v.frags=w.frags+1) (hrw : ∀ k,k≠d → v.row k=w.row k)
    (hlv : (v.row d).used) (hc : Chain w.fragNext cfg.ip6ReassFrags none8 (v.row d).fragHead (fs d))
    (hsp : fs d=pre++post) (hne : behind none8 pre≠fi) :
    FragsOk cfg (fileIn v d fi (behind none8 pre) a f) (update fs d (pre++fi::post)) := by
  have hfr : (fileIn v d fi (behind none8 pre) a f).frags=w.frags+1 := by
    obtain ⟨frag,row,io,hrs,-⟩ := @fileIn_rest v d fi (behind none8 pre) a f
    rw [hrs,←hcn]
  have hl := behind_link frags_le_none (hsp ▸ hc)
  have he : ∀ k,(fileIn v d fi (behind none8 pre) a f).frag k=_ := fileIn_frag hne
  have hr : ∀ k,(fileIn v d fi (behind none8 pre) a f).row k=_ := fileIn_row
  generalize fileIn v d fi (behind none8 pre) a f=u at *
  show Threaded _ _ _ _ u.frags _ _ _ _
  rw [hfr]
  refine h.putIn frags_le_none hd hsp hc hfi hfree (fun k hk => ?_) ?_ (fun k hk => ?_) ?_ (fun k _ => ?_)
    (fun k hk => ?_) ?_
  · rw [hr,if_neg hk,hrw k hk]
  · rw [hr,if_pos rfl,learned_eq]
    exact hlv
  · rw [hr,if_neg hk,hrw k hk]
  · rw [hr,if_pos rfl,learned_eq]
  · rw [he,update_apply]
    by_cases hk : k=fi
    · rw [if_pos hk,if_pos hk]
      exact hn
    rw [if_neg hk,if_neg hk,hf _ hne,hf k hk]
    split_ifs with hp
    · rw [hp.1]
    · rfl
  · unfold fragNext
    rw [he,if_neg hk]
    split_ifs
    · rfl
    · rw [hf k hk]
  · unfold fragNext at hl ⊢
    rw [he,if_pos rfl,hf _ hne]
    exact hl

theorem fileIn_keeps :
    ((fileIn w d fi prev a f).row k).used=(w.row k).used ∧ ((fileIn w d fi prev a f).row k).holeHead=(w.row k).holeHead := by
  rw [fileIn_row]
  by_cases hk : k=d
  · rw [if_pos hk,hk,learned_eq]
    exact ⟨rfl,rfl⟩
  · rw [if_neg hk]
    exact ⟨rfl,rfl⟩

theorem fileIn_holesOk {hs : ℕ → List ℕ} (h : HolesOk cfg w hs) : HolesOk cfg (fileIn w d fi prev a f) hs := by
  obtain ⟨frag,row,io,hr,-⟩ := @fileIn_rest w d fi prev a f
  refine h.congr (fun k => (fileIn_keeps).1) (fun k => (fileIn_keeps).2) ?_ (fun i _ => ?_) fun i _ => ?_
  all_goals rw [hr]
  rfl

theorem scanList_apart {l : List ℕ} (h : scanList w o n l p=.clear q) :
    ∀ i∈l,¬(o<(w.frag i).offset+(w.frag i).len ∧ (w.frag i).offset<o+n) := by
  induction l generalizing p with
  | nil => exact nofun
  | cons i l ih =>
    unfold scanList at h
    dsimp only at h
    split_ifs at h with hdup ho hlt <;>
    · intro k hk
      rcases mem_cons.1 hk with rfl|hk
      · exact ho
      · exact ih h k hk

/-- It names the last entry that begins before the fragment, or what it was given when none does. -/
theorem scanList_place {l : List ℕ} (h : scanList w o n l p=.clear q) :
    ∃ pre post,l=pre++post ∧ q=pre.getLast?.getD p ∧ (∀ i∈pre.getLast?,(w.frag i).offset<o) ∧ ∀ i∈post,o≤(w.frag i).offset := by
  induction l generalizing p with
  | nil =>
    cases h
    exact ⟨[],[],rfl,rfl,nofun,nofun⟩
  | cons i l ih =>
    unfold scanList at h
    dsimp only at h
    split_ifs at h with hdup hover hlt
    · -- the entry begins before the fragment: it, or a later one, is the last
      obtain ⟨pre,post,hl,hq,hpr,hp⟩ := ih h
      refine ⟨i::pre,post,by rw [hl]; rfl,?_,?_,hp⟩
      · rw [hq,getLast?_cons,Option.getD_some]
      · rw [getLast?_cons]
        intro k hk
        cases hls : pre.getLast? with
        | none =>
          rw [hls] at hk
          cases hk
          exact hlt
        | some j =>
          rw [hls] at hk
          cases hk
          exact hpr _ hls
    · obtain ⟨pre,post,hl,hq,hpr,hp⟩ := ih h
      cases pre with
      | nil =>
        refine ⟨[],i::post,by rw [hl]; rfl,hq,hpr,fun k hk => ?_⟩
        rcases mem_cons.1 hk with rfl|hk
        · exact Nat.le_of_not_lt hlt
        · exact hp k hk
      | cons j pre =>
        refine ⟨i::j::pre,post,by rw [hl]; rfl,?_,?_,hp⟩
        · rw [hq,getLast?_cons_cons,getLast?_cons]
        · rw [getLast?_cons_cons]
          exact hpr

end FileIn

section Settle

variable {w y z : Work} {hs : ℕ → List ℕ} {d : ℕ} {f : Fields}

/-- A filed fragment is cut out of the gaps of its row, and the row completed if none is left. -/
theorem settle_worked (h : HolesOk cfg y hs) (hd : d < cfg.ip6ReassDatagrams) (hu : (y.row d).used)
    (hap : Apart (y.gaps (hs d))) (hr : y.holes < cfg.ip6ReassHoles) (hend : f.fragEnd≤65535) :
    ∃ z m,Worked cfg y z hs d m ∧ z.gaps m=take f.offset f.fragEnd f.more (y.gaps (hs d)) ∧ settle cfg y d f=complete z d := by
  have hle : f.offset≤f.fragEnd := Nat.le_add_right _ _
  obtain ⟨v,l,hc,hw,hg⟩ := carve_worked h hd hu f.offset f.fragEnd f.more hap (by omega) (by omega) hr
  unfold settle take
  rw [hc]
  cases hm : f.more with
  | true =>
    rw [hm] at hg
    exact ⟨v,l,hw,hg,rfl⟩
  | false =>
    obtain ⟨m,hw',hgaps'⟩ := trim_worked hw.ok hd ((hw.rest.used d).trans hu) f.fragEnd (by omega)
    rw [update_self,hg,hm] at hgaps'
    exact ⟨trim cfg v d f.fragEnd,m,hw.trans h hd hw',hgaps',rfl⟩

theorem complete_frame {z : Work} {d : ℕ} : ∃ st total io,complete z d=
      {z with row := update z.row d {z.row d with state := st,totalLen := total},io := io} := by
  unfold complete
  dsimp only
  split_ifs
  · exact ⟨(z.row d).state,(z.row d).totalLen,_,by rw [update_eq_self]; rfl⟩
  · exact ⟨.abandoned,(z.row d).totalLen,_,rfl⟩
  · exact ⟨.complete,payloadLen z d,_,rfl⟩

theorem complete_report {z : Work} {d : ℕ} : let io := (complete z d).io
    ((z.row d).holeHead≠none8 → io.status=.ok ∧ io.complete=z.io.complete) ∧
      ((z.row d).holeHead=none8 → 65535<payloadLen z d → io.status=z.io.status ∧ io.complete=z.io.complete) ∧
      ((z.row d).holeHead=none8 → payloadLen z d≤65535 →
        io.status=.ok ∧ io.complete ∧ io.totalLen=payloadLen z d) ∧
      io.datagram=z.io.datagram ∧ io.nextHdr=z.io.nextHdr := by
  unfold complete
  dsimp only
  refine ⟨fun h => ?_,fun h h' => ?_,fun h h' => ?_,?_⟩
  · rw [if_pos h]
    exact ⟨rfl,rfl⟩
  · rw [if_neg (not_not.2 h),if_pos h']
    exact ⟨rfl,rfl⟩
  · rw [if_neg (not_not.2 h),if_neg (not_lt.2 h')]
    exact ⟨rfl,rfl,rfl⟩
  · split_ifs <;> exact ⟨rfl,rfl⟩

theorem complete_row {z : Work} {d : ℕ} : ((z.row d).holeHead≠none8 → ((complete z d).row d).state=(z.row d).state) ∧
      ((z.row d).holeHead=none8 → 65535<payloadLen z d → ((complete z d).row d).state=.abandoned) ∧
      ((z.row d).holeHead=none8 → payloadLen z d≤65535 →
        ((complete z d).row d).state=.complete ∧ ((complete z d).row d).totalLen=payloadLen z d) := by
  unfold complete
  refine ⟨fun h => ?_,fun h h' => ?_,fun h h' => ?_⟩
  · rw [if_pos h]
    rfl
  · rw [if_neg (not_not.2 h),if_pos h']
    simp [refuse,setRow]
  · rw [if_neg (not_not.2 h),if_neg (not_lt.2 h')]
    simp [setRow]

variable (cfg)

/-- What settling a filed fragment leaves: the fragments alone, the holes of its row cut, and a report. -/
structure Settled (y u : Work) (f : Fields) (hs : ℕ → List ℕ) (d : ℕ) (m : List ℕ) : Prop where
  /-- The row keeps all but its holes, state and length, the rest all but holes and reports. -/
  frame : ∃ hole holes head st total io,u={y with
    hole := hole
    holes := holes
    row := update y.row d {y.row d with holeHead := head,state := st,totalLen := total}
    io := io}
  ok : HolesOk cfg u (update hs d m)
  gaps : u.gaps m=take f.offset f.fragEnd f.more (y.gaps (hs d))
  other : ∀ i,i∉hs d → (y.hole i).used → u.hole i=y.hole i
  pending : m≠[] → u.io.status=.ok ∧ u.io.complete=y.io.complete
  /-- The report of a packet that is too long. -/
  tooLong : m=[] → 65535<payloadLen y d → u.io.status=y.io.status ∧ u.io.complete=y.io.complete
  /-- The report of one that is complete. -/
  done : m=[] → payloadLen y d≤65535 → u.io.status=.ok ∧ u.io.complete ∧ u.io.totalLen=payloadLen y d
  datagram : u.io.datagram=y.io.datagram
  nextHdr : u.io.nextHdr=y.io.nextHdr
  goesOn : m≠[] → (u.row d).state=(y.row d).state
  givenUp : m=[] → 65535<payloadLen y d → (u.row d).state=.abandoned
  completed : m=[] → payloadLen y d≤65535 → (u.row d).state=.complete ∧ (u.row d).totalLen=payloadLen y d

variable {cfg}

theorem settle_settled (h : HolesOk cfg y hs) (hd : d < cfg.ip6ReassDatagrams) (hu : (y.row d).used)
    (hap : Apart (y.gaps (hs d))) (hr : y.holes < cfg.ip6ReassHoles) (hen : f.fragEnd≤65535) :
    ∃ m,Settled cfg y (settle cfg y d f) f hs d m := by
  obtain ⟨z,m,hw,hgp,hse⟩ := settle_worked h hd hu hap hr hen
  obtain ⟨st,total,io,hc⟩ := complete_frame
  obtain ⟨hol,ho,head,hz⟩ := hw.rest
  have he : (z.row d).holeHead=none8 ↔ m=[] := by
    have hch := hw.ok.chain d hd ((hw.rest.used d).trans hu)
    rw [update_self] at hch
    constructor
    · intro hn
      exact (hch.nil_iff holes_le_none).1 (by rw [hn]; exact holes_le_none)
    · rintro rfl
      exact hch
  obtain ⟨hp,hl,hdn,hnm,hnx⟩ := complete_report
  obtain ⟨hst,hg,hwh⟩ := complete_row
  have hpy : payloadLen z d=payloadLen y d := by
    unfold payloadLen
    rw [hz]
    simp only [update_self]
  have hio : z.io=y.io := by rw [hz]
  have hh : (complete z d).hole=z.hole := by rw [hc]
  rw [he,hpy,hio] at hl
  rw [he,hpy] at hdn
  rw [Ne,he,hio] at hp
  rw [he,hpy] at hg hwh
  have hkp : (z.row d).state=(y.row d).state := by
    rw [hz]
    simp only [update_self]
  rw [Ne,he,hkp] at hst
  rw [hse]
  refine ⟨m,⟨hol,ho,head,st,total,io,?_⟩,?_,?_,fun i hi hiu => ?_,hp,hl,hdn,
    hnm.trans (by rw [hio]),hnx.trans (by rw [hio]),hst,hg,hwh⟩
  · rw [hc,hz]
    simp only [update_self,update_idem]
  · refine hw.ok.congr (fun k => ?_) (fun k => ?_) (by rw [hc]) (fun i _ => by rw [hh]) fun i _ => ?_
    · rw [hc]
      by_cases hk : k=d <;> simp [hk]
    · rw [hc]
      by_cases hk : k=d <;> simp [hk]
    · unfold holeNext
      rw [hh]
  · unfold gaps gap
    rw [hh]
    exact hgp
  · rw [hh]
    exact hw.other i hi hiu

end Settle

section Ok

variable (cfg)

/-- A row with its fragments, and what they leave missing. -/
structure RowOk (w : Work) (r : Datagram) (fl : List ℕ) (gs : List Gap) : Prop where
  /-- The gaps are in order and apart. -/
  apart : Apart gs
  /-- There is at most one more of them than fragments. -/
  room : gs.length≤fl.length+1
  /-- The first octet is missing until a first fragment came. -/
  missing : r.firstSeen=false → Missing gs 0
  /-- A first fragment is at the head. -/
  head : r.firstSeen → ∃ i rest,fl=i::rest ∧ (w.frag i).offset=0
  count : r.fragCount=fl.length

/-- The tables are in order. -/
structure Ok (w : Work) (fs hs : ℕ → List ℕ) : Prop where
  frags : FragsOk cfg w fs
  holes : HolesOk cfg w hs
  rows : ∀ d < cfg.ip6ReassDatagrams,(w.row d).used → RowOk w (w.row d) (fs d) (w.gaps (hs d))

variable {cfg}

/-- The same tables but for the state of rows and the contents of free entries. -/
structure Alike (w u : Work) : Prop where
  row : ∀ d,∃ st,u.row d={w.row d with state := st}
  used : ∀ i,(u.frag i).used=(w.frag i).used
  frag : ∀ i,(w.frag i).used → u.frag i=w.frag i
  hole : u.hole=w.hole
  counts : u.frags=w.frags ∧ u.holes=w.holes
  /-- A row that changes its state is given up. -/
  state : ∀ d,(u.row d).state=(w.row d).state ∨ (u.row d).state=.expired ∨ (u.row d).state=.abandoned

variable {w u : Work} {fs hs : ℕ → List ℕ}

theorem Alike.of_eq (hr : u.row=w.row) (hf : u.frag=w.frag) (hh : u.hole=w.hole) (hc : u.frags=w.frags ∧ u.holes=w.holes) :
    Alike w u :=
  ⟨fun d => ⟨(w.row d).state,by rw [hr]⟩,fun i => by rw [hf],fun i _ => by rw [hf],hh,hc,fun d => .inl (by rw [hr])⟩

theorem Alike.keeps (h : Alike w u) {α : Type} (g : Datagram → α) (hg : ∀ r st,g {r with state := st}=g r) (d : ℕ) :
    g (u.row d)=g (w.row d) := by
  obtain ⟨st,hst⟩ := h.row d
  rw [hst]
  exact hg (w.row d) st

theorem Ok.alike (h : Ok cfg w fs hs) (ha : Alike w u) : Ok cfg u fs hs := by
  have hus := ha.keeps used fun _ _ => rfl
  have hg : ∀ l,u.gaps l=w.gaps l := by
    intro l
    unfold gaps gap
    rw [ha.hole]
  refine ⟨?_,?_,fun d hd hu => ?_⟩
  · refine h.frags.congr hus (ha.keeps fragHead fun _ _ => rfl) ha.counts.1 (fun i _ => ha.used i) fun i hi => ?_
    unfold fragNext
    rw [ha.frag i hi]
  · refine h.holes.congr hus (ha.keeps holeHead fun _ _ => rfl) ha.counts.2 (fun i _ => by rw [ha.hole])
      fun i _ => ?_
    unfold holeNext
    rw [ha.hole]
  · rw [hus] at hu
    have hr := h.rows d hd hu
    rw [hg]
    refine ⟨hr.apart,hr.room,?_,?_,?_⟩
    · rw [ha.keeps firstSeen fun _ _ => rfl]
      exact hr.missing
    · rw [ha.keeps firstSeen fun _ _ => rfl]
      intro hf
      obtain ⟨i,rest,hl,ho⟩ := hr.head hf
      refine ⟨i,rest,hl,?_⟩
      rw [ha.frag i (h.frags.kept.used_of_mem hd (by rw [hl]; exact mem_cons_self)).2]
      exact ho
    · rw [ha.keeps fragCount fun _ _ => rfl]
      exact hr.count

theorem ok_clear (w : Work) : Ok cfg (clear w) (fun _ => []) fun _ => [] := by
  refine ⟨⟨Kept.empty fun _ _ => rfl,fun d _ hu => ?_,fun _ _ _ => rfl⟩,
    ⟨Kept.empty fun _ _ => rfl,fun d _ hu => ?_,fun _ _ _ => rfl⟩,fun d _ hu => ?_⟩
  all_goals cases hu

theorem holes_lt {y : Work} {d : ℕ} (hd : d < cfg.ip6ReassDatagrams) (hh : HolesOk cfg v hs) (hf : FragsOk cfg y fs)
    (ha : ∀ k < cfg.ip6ReassDatagrams,(hs k).length≤(fs k).length+1) (hlt : (hs d).length≤(fs d).length) :
    v.holes < cfg.ip6ReassHoles := by
  have hsum := flat_length_lt hd ha hlt
  have hsize := cfg.ip6ReassHoles_ge
  have hfr := hf.kept.count_le
  rw [hf.kept.count_eq] at hfr
  rw [hh.kept.count_eq]
  omega

end Ok

section Filing

/-- A fragment that a row lets pass: it overlaps none held and agrees with the end the row knows. -/
structure Passed (w : Work) (r : Datagram) (f : Fields) (fl : List ℕ) : Prop where
  gathering : r.state=.holding
  /-- No fragment held shares an octet with it. -/
  clear : ∀ i∈fl,¬(f.offset<(w.frag i).offset+(w.frag i).len ∧ (w.frag i).offset<f.fragEnd)
  /-- It does not go beyond the end. -/
  within : f.more → r.lastSeen → f.fragEnd ≤ r.fragEnd
  /-- A last fragment does not end before what is held. -/
  past : f.more=false → ∀ i∈fl,(w.frag i).offset+(w.frag i).len≤f.fragEnd
  same : f.more=false → r.lastSeen → r.fragEnd=f.fragEnd
  fits : f.fragEnd≤65535

variable (cfg)

/-- A fragment went into one row: from the row as it was or was opened, with what it then missed. -/
structure Filed (w u : Work) (a : InputArgs) (f : Fields) (fs hs : ℕ → List ℕ) (d fi : ℕ) (r : Datagram) (gs : List Gap)
    (l m : List ℕ) : Prop where
  row_lt : d < cfg.ip6ReassDatagrams
  base : RowOk w r (fs d) gs
  slot_lt : fi < cfg.ip6ReassFrags
  free : (w.frag fi).used=false
  /-- The row lists it with those it held. -/
  frags : FragsOk cfg u (update fs d l)
  perm : l.Perm (fi::fs d)
  first : f.offset=0 → l=fi::fs d
  /-- Any other goes behind a first one. -/
  rest : f.offset≠0 → ∀ i t,fs d=i::t → (w.frag i).offset=0 → ∃ t',l=i::t'
  entry : ∃ n,u.frag fi=⟨a.desc,f.offset,f.fragLen,f.hdrLen,n,true⟩
  others : ∀ k,k≠fi → ∃ n,u.frag k={w.frag k with next := n}
  rows : ∀ k,k≠d → u.row k=w.row k
  row : ∃ fh hh st total,u.row d={r.learned f with fragHead := fh,holeHead := hh,state := st,totalLen := total}
  /-- It is cut out of what the row missed. -/
  holes : HolesOk cfg u (update hs d m)
  gaps : u.gaps m=take f.offset f.fragEnd f.more gs
  other : ∀ i,i∉hs d → (w.hole i).used → u.hole i=w.hole i
  pending : m≠[] → u.io.status=.ok ∧ u.io.complete=w.io.complete
  /-- The report of a packet that is too long. -/
  tooLong : m=[] → 65535<payloadLen u d → u.io.status=w.io.status ∧ u.io.complete=w.io.complete
  /-- The report of one that is complete. -/
  done : m=[] → payloadLen u d≤65535 → u.io.status=.ok ∧ u.io.complete ∧ u.io.totalLen=payloadLen u d
  datagram : u.io.datagram=d
  passed : Passed w r f (fs d)
  /-- It went behind those that begin before it. -/
  place : ∃ pre post,fs d=pre++post ∧ l=pre++fi::post ∧ (∀ i∈pre.getLast?,(w.frag i).offset<f.offset) ∧
    ∀ i∈post,f.offset≤(w.frag i).offset
  goesOn : m≠[] → (u.row d).state=.holding
  givenUp : m=[] → 65535<payloadLen u d → (u.row d).state=.abandoned
  completed : m=[] → payloadLen u d≤65535 → (u.row d).state=.complete ∧ (u.row d).totalLen=payloadLen u d
  count : u.frags=w.frags+1
  ready : u.ready=w.ready
  /-- The Next Header reported is the row's. -/
  nextHdr : u.io.nextHdr=(r.learned f).nextHdr

variable {cfg} {w : Work} {fs hs : ℕ → List ℕ} {a : InputArgs} {f : Fields} {d fi prev : ℕ}

variable {r : Datagram} {gs : List Gap} {l m : List ℕ} {j : ℕ}

/-- An entry in use when a fragment is filed is only linked anew. -/
theorem Filed.linked {u : Work} (hf : Filed cfg w u a f fs hs d fi r gs l m)
    {i : ℕ} (hi : (w.frag i).used) : ∃ n,u.frag i={w.frag i with next := n} :=
  hf.others i fun he => by
    rw [he,hf.free] at hi
    cases hi

theorem Ok.room (h : Ok cfg w fs hs) (hk : k < cfg.ip6ReassDatagrams) : (hs k).length≤(fs k).length+1 := by
  cases hu : (w.row k).used with
  | true =>
    have hr := (h.rows k hk hu).room
    rwa [gaps,length_map] at hr
  | false =>
    rw [h.holes.free k hk hu]
    exact Nat.zero_le _

theorem settle_filed (v : Work) (hl : List ℕ) (h : Ok cfg w fs hs) (hd : d < cfg.ip6ReassDatagrams)
    (hfi : fi < cfg.ip6ReassFrags) (hfr : (w.frag fi).used=false) (hfrag : ∀ k,k≠fi → v.frag k=w.frag k)
    (hn : (v.frag fi).used) (hcn : v.frags=w.frags+1) (hrd : v.ready=w.ready) (hio : v.io=w.io)
    (hrw : ∀ k,k≠d → v.row k=w.row k)
    (hlv : (v.row d).used) (hch : Chain w.fragNext cfg.ip6ReassFrags none8 (v.row d).fragHead (fs d))
    (hsp : fs d=pre++post) (hpre : ∀ i∈pre.getLast?,(w.frag i).offset<f.offset) (hps : ∀ i∈post,f.offset≤(w.frag i).offset)
    (hh : HolesOk cfg v (update hs d hl)) (ho : ∀ i,i∉hs d → (w.hole i).used → v.hole i=w.hole i)
    (hb : RowOk w (v.row d) (fs d) (v.gaps hl)) (hp : Passed w (v.row d) f (fs d)) {y : Work} (hf : fileIn v d fi (behind none8 pre) a f=y) :
    ∃ l m,Filed cfg w (settle cfg y d f) a f fs hs d fi (v.row d) (v.gaps hl) l m := by
  have hne := h.frags.behind_ne_free frags_le_none hd hsp hfi hfr
  have hfrags : FragsOk cfg y (update fs d (pre++fi::post)) :=
    hf ▸ fileIn_fragsOk h.frags hd hfi hfr hfrag hn hcn hrw hlv hch hsp hne
  have hyh : HolesOk cfg y (update hs d hl) := hf ▸ fileIn_holesOk hh
  have hyf : ∀ k,y.frag k=_ := hf ▸ fileIn_frag hne
  have hyr : ∀ k,y.row k=_ := hf ▸ fileIn_row
  have hyn : y.io.datagram=d := hf ▸ rfl
  have hynext : y.io.nextHdr=(y.row d).nextHdr := hf ▸ rfl
  obtain ⟨frag,row,io,hy,hst,hc⟩ := @fileIn_rest v d fi (behind none8 pre) a f
  rw [hf] at hy
  have hyd : y.row d={(v.row d).learned f with
      fragHead := if behind none8 pre=none8 then fi else (v.row d).fragHead} := by
    rw [hyr,if_pos rfl,learned_eq,learned_eq]
  have hlive' : (y.row d).used := by
    rw [hyd,learned_eq]
    exact hlv
  have hg : y.gaps hl=v.gaps hl := by
    rw [hy]
    rfl
  have hpr : (pre++fi::post).Perm (fi::fs d) := by
    rw [hsp]
    exact perm_middle
  have hroom : hl.length≤(fs d).length+1 := by
    have hr := hb.room
    rwa [gaps,length_map] at hr
  have hlt : y.holes < cfg.ip6ReassHoles := by
    have hle := hpr.length_eq
    rw [length_cons] at hle
    refine holes_lt hd hyh hfrags (fun k hk => ?_) ?_
    · by_cases hkd : k=d
      · rw [hkd,update_self,update_self]
        omega
      · rw [update_of_ne hkd,update_of_ne hkd]
        exact h.room hk
    · rw [update_self,update_self]
      omega
  rw [←hg] at hb ⊢
  obtain ⟨m,hse⟩ := settle_settled (f := f) hyh hd hlive' (by rw [update_self]; exact hb.apart) hlt hp.fits
  obtain ⟨hole,holes,head,st,total,io',hu⟩ := hse.frame
  have huf : (settle cfg y d f).frag=y.frag := by rw [hu]
  have hus : ∀ k,((settle cfg y d f).row k).used=(y.row k).used ∧ ((settle cfg y d f).row k).fragHead=(y.row k).fragHead := by
    intro k
    rw [hu]
    by_cases hk : k=d <;> simp [hk]
  have hpy : payloadLen (settle cfg y d f) d=payloadLen y d := by
    unfold payloadLen
    rw [hu]
    simp only [update_self]
  have hok := hse.ok
  rw [update_idem] at hok
  have ht := hse.gaps
  rw [update_self] at ht
  have hstate : (y.row d).state=.holding := by
    rw [hyd,learned_eq]
    exact hp.gathering
  have hyi : y.io.status=w.io.status ∧ y.io.complete=w.io.complete := by
    rw [hy,←hio]
    exact ⟨hst,hc⟩
  refine ⟨pre++fi::post,m,hd,hb,hfi,hfr,?_,hpr,fun h0 => ?_,fun h0 i t hit hoff => ?_,?_,fun k hk => ?_,fun k hk => ?_,
    ?_,hok,ht,fun i hi hiu => ?_,fun hm => ?_,fun hm hln => ?_,fun hm hft => ?_,hse.datagram.trans hyn,hp,
    ⟨pre,post,hsp,rfl,hpre,hps⟩,fun hm => (hse.goesOn hm).trans hstate,fun hm hln => ?_,fun hm hft => ?_,
    by rw [hu,←hcn,hy],by rw [hu,←hrd,hy],hse.nextHdr.trans (hynext.trans (by rw [hyd]))⟩
  · refine hfrags.congr (fun k => (hus k).1) (fun k => (hus k).2) (by rw [hu]) (fun i _ => by rw [huf]) fun i _ => ?_
    unfold fragNext
    rw [huf]
  · -- nothing begins before the first octet
    rcases eq_nil_or_concat' pre with rfl|⟨front,p,rfl⟩
    · rw [hsp]
      rfl
    · have hlt0 := hpre p (by rw [getLast?_concat]; rfl)
      omega
  · cases pre with
    | nil =>
      have hle0 := hps i (by rw [show post=fs d from hsp.symm,hit]; exact mem_cons_self)
      omega
    | cons x front =>
      rw [hsp] at hit
      cases hit
      exact ⟨front++fi::post,rfl⟩
  · rw [huf,hyf,if_pos rfl,hn]
    exact ⟨_,rfl⟩
  · rw [huf,hyf,if_neg hk,hfrag _ hne,hfrag k hk]
    split_ifs with hkp
    · rw [hkp.1]
      exact ⟨fi,rfl⟩
    · exact ⟨_,rfl⟩
  · rw [hu]
    refine (update_of_ne hk _ _).trans ?_
    rw [hyr,if_neg hk,hrw k hk]
  · refine ⟨if behind none8 pre=none8 then fi else (v.row d).fragHead,head,st,total,?_⟩
    rw [hu]
    simp only [update_self,hyd]
  · have hsm : y.hole i=w.hole i := by
      rw [hy]
      exact ho i hi hiu
    refine (hse.other i ?_ (by rw [hsm]; exact hiu)).trans hsm
    rw [update_self]
    exact h.holes.kept.off_list hyh.kept hd hi hiu
  · rw [←hyi.2]
    exact hse.pending hm
  · rw [←hyi.1,←hyi.2]
    exact hse.tooLong hm (by rwa [←hpy])
  · rw [hpy]
    exact hse.done hm (by rwa [←hpy])
  · exact hse.givenUp hm (by rwa [←hpy])
  · rw [hpy]
    exact hse.completed hm (by rwa [←hpy])

theorem Filed.ok {u : Work} (h : Ok cfg w fs hs)
    (hf : Filed cfg w u a f fs hs d fi r gs l m) : Ok cfg u (update fs d l) (update hs d m) := by
  obtain ⟨fh,hh,st,total,hr⟩ := hf.row
  have hle : f.offset≤f.fragEnd := Nat.le_add_right _ _
  have hol : ∀ k < cfg.ip6ReassDatagrams,∀ i∈fs k,(u.frag i).offset=(w.frag i).offset := by
    intro k hk i hi
    obtain ⟨n,hn⟩ := hf.linked (h.frags.kept.used_of_mem hk hi).2
    rw [hn]
  refine ⟨hf.frags,hf.holes,fun k hk hu => ?_⟩
  by_cases hkd : k=d
  · subst hkd
    rw [update_self,update_self,hf.gaps,hr]
    refine ⟨hf.base.apart.take hle,?_,fun hfr => ?_,fun hfr => ?_,?_⟩
    · have hlen := hf.base.apart.length_take f.offset f.fragEnd f.more
      have hroom := hf.base.room
      rw [hf.perm.length_eq,length_cons]
      omega
    · rw [learned_eq] at hfr
      have hsp : f.offset≠0 ∧ r.firstSeen=false := by simpa using hfr
      exact (missing_take hle).2 ⟨hf.base.missing hsp.2,.inl (by omega)⟩
    · by_cases h0 : f.offset=0
      · obtain ⟨n,hn⟩ := hf.entry
        exact ⟨fi,fs k,hf.first h0,by rw [hn]; exact h0⟩
      · rw [learned_eq] at hfr
        rw [decide_eq_false h0,Bool.false_or] at hfr
        obtain ⟨i,t,hit,ho⟩ := hf.base.head hfr
        obtain ⟨t',ht'⟩ := hf.rest h0 i t hit ho
        exact ⟨i,t',ht',by rw [hol k hk i (by rw [hit]; exact mem_cons_self)]; exact ho⟩
    · rw [learned_eq,hf.perm.length_eq]
      exact congrArg (·+1) hf.base.count
  · have hg : u.gaps (hs k)=w.gaps (hs k) := by
      refine map_congr_left fun i hi => ?_
      unfold gap
      rw [hf.other i (fun hid => hkd (h.holes.kept.row_unique hk hf.row_lt hi hid)) (h.holes.kept.used_of_mem hk hi).2]
    rw [hf.rows k hkd] at hu ⊢
    rw [update_of_ne hkd,update_of_ne hkd,hg]
    have hb := h.rows k hk hu
    refine ⟨hb.apart,hb.room,hb.missing,fun hfr => ?_,hb.count⟩
    obtain ⟨i,t,hit,ho⟩ := hb.head hfr
    exact ⟨i,t,hit,by rw [hol k hk i (by rw [hit]; exact mem_cons_self)]; exact ho⟩

/-- The tables with an entry taken. -/
def Work.tookFrag (w : Work) (i : ℕ) : Work := {w.setFrag i ⟨0,0,0,0,none8,true⟩ with frags := w.frags+1}

theorem takeFrag_cases (cfg : Config) (w : Work) :
    takeFrag cfg w=none ∨ ∃ i < cfg.ip6ReassFrags,(w.frag i).used=false ∧ takeFrag cfg w=some (w.tookFrag i,i) := by
  unfold takeFrag
  split_ifs
  · exact .inl rfl
  cases hi : firstIndex cfg.ip6ReassFrags fun i => !(w.frag i).used with
  | none => exact .inl rfl
  | some i =>
    obtain ⟨hf,hlt,-⟩ := firstIndex_some.1 hi
    exact .inr ⟨i,hlt,by simpa using hf,rfl⟩

/-- A row opened for a fragment. -/
def freshRow (cfg : Config) (w : Work) (a : InputArgs) (f : Fields) (j : ℕ) : Datagram :=
  ({Datagram.zero with used := true,fragHead := none8,holeHead := none8} : Datagram).opened cfg w a f j

/-- The tables with a row opened. -/
def Work.openedRow (cfg : Config) (v : Work) (a : InputArgs) (f : Fields) (d j : ℕ) : Work :=
  {v with
    datagrams := v.datagrams+1
    row := update v.row d (freshRow cfg v a f j)
    hole := update v.hole j ⟨0,0xFFFF,none8,true⟩
    holes := v.holes+1}

theorem openRow_cases (v : Work) (hk : Kept cfg.ip6ReassDatagrams cfg.ip6ReassHoles (fun i => (v.hole i).used) v.holes hs)
    (hr : ∀ d < cfg.ip6ReassDatagrams,(v.row d).used=false → v.holes < cfg.ip6ReassHoles) :
    takeDatagram cfg v=none ∧ openRow cfg v a f=(v,none) ∨ ∃ d < cfg.ip6ReassDatagrams,∃ j < cfg.ip6ReassHoles,
      (v.row d).used=false ∧ (v.hole j).used=false ∧ openRow cfg v a f=(v.openedRow cfg a f d j,some d) := by
  unfold openRow takeDatagram
  split_ifs
  · exact .inl ⟨rfl,rfl⟩
  cases hd : firstIndex cfg.ip6ReassDatagrams fun i => !(v.row i).used with
  | none => exact .inl ⟨rfl,rfl⟩
  | some d =>
    obtain ⟨hf,hlt,-⟩ := firstIndex_some.1 hd
    have hfree' : (v.row d).used=false := by simpa using hf
    obtain ⟨j,hj,hjf,ht⟩ := takeHole_some {v.setRow d {zero with
      used := true,fragHead := none8,holeHead := none8} with datagrams := v.datagrams+1} hk (hr d hlt hfree')
    refine .inr ⟨d,hlt,j,hj,hfree',hjf,?_⟩
    simp only [Option.map_some,ht]
    simp [setRow,setHole,openedRow,freshRow,opened]

theorem opened_holesOk (h : HolesOk cfg w hs) (hd : d < cfg.ip6ReassDatagrams) (hu : (w.row d).used=false)
    (hj : j < cfg.ip6ReassHoles) (hf : (w.hole j).used=false) (hr : ∀ k,k≠d → v.row k=w.row k) (hl : (v.row d).used)
    (hhd : (v.row d).holeHead=j) (hh : v.hole=update w.hole j ⟨0,0xFFFF,none8,true⟩)
    (hc : v.holes=w.holes+1) : HolesOk cfg v (update hs d [j]) := by
  have he : hs d=[] := h.free d hd hu
  refine h.rethread hd (fun k hk => by rw [hr k hk]) (fun k hk => by rw [hr k hk]) hl ?_ ?_ fun i _ hiu => ?_
  · rw [hc]
    refine (h.kept.insert hd hj hf (by rw [he])).congr (fun k _ => ?_) fun _ _ => rfl
    rw [hh]
    by_cases hk : k=j <;> simp [hk]
  · rw [hhd]
    refine ⟨rfl,hj,?_⟩
    show (v.hole j).next=none8
    rw [hh,update_self]
  · have hij : i≠j := by
      rintro rfl
      rw [hf] at hiu
      cases hiu
    unfold holeNext
    rw [hh,update_of_ne hij]

theorem freshRow_ok {w : Work} {a : InputArgs} {f : Fields} {j : ℕ} : RowOk w (freshRow cfg v a f j) [] [⟨0,0xFFFF⟩] :=
  ⟨⟨pairwise_singleton _ _,fun g hg => by rw [mem_singleton.1 hg]; exact Nat.zero_le _⟩,le_rfl,
    fun _ => ⟨_,mem_singleton_self _,le_rfl,Nat.zero_le _⟩,nofun,rfl⟩

/-- Whether a fragment is refused for what it says alone. -/
def Fields.bad (f : Fields) (a : InputArgs) : Bool :=
  f.more && f.fragLen%8 != 0 || decide (65535<f.fragEnd) || decide (f.offset=0) && chainShort a

/-- The held row a fragment is filed in, with what it says; none when it is refused or opens a row. -/
def joinsRow (cfg : Config) (w : Work) (a : InputArgs) : Option (Fields×ℕ) :=
  match fields a with
  | none => none
  | some f =>
    if f.bad a || decide (f.offset=0) && !f.more then none
    else match matchRow cfg w (a.pkt.drop 8) (a.pkt.drop 24) f.ident with
      | none => none
      | some d => match judge cfg w d f with
        | .inl _ => none
        | .inr _ => if (takeFrag cfg w).isSome then some (f,d) else none

/-- The row a fragment goes to, as it is before, and what it misses. -/
inductive Goes (cfg : Config) (w : Work) (a : InputArgs) (f : Fields) (hs : ℕ → List ℕ) : ℕ → Datagram → List Gap → Prop
  | joins (d : ℕ) (hu : (w.row d).used) (hj : joinsRow cfg w a=some (f,d)) : Goes cfg w a f hs d (w.row d) (w.gaps (hs d))
  | opens (d j : ℕ) (hfree : (w.row d).used=false) (hj : joinsRow cfg w a=none) :
    Goes cfg w a f hs d (freshRow cfg w a f j) [⟨0,0xFFFF⟩]

/-- Every way a call can go, from tables whose report says an error. -/
inductive Outcome (cfg : Config) (w : Work) (a : InputArgs) (fs hs : ℕ → List ℕ) : Work → Prop
  | unfiled (u : Work) (ha : Alike w u) (hst : u.io.status≠.ok) (hc : u.io.complete=false) (hj : joinsRow cfg w a=none) :
    Outcome cfg w a fs hs u
  | filed (f : Fields) (d fi : ℕ) (r : Datagram) (gs : List Gap) (l m : List ℕ) (u : Work) (hf : fields a=some f)
    (hbad : f.bad a=false) (hg : Goes cfg w a f hs d r gs) (h : Filed cfg w u a f fs hs d fi r gs l m) :
    Outcome cfg w a fs hs u

theorem Ok.holes_room (h : Ok cfg w fs hs) (hd : d < cfg.ip6ReassDatagrams) (hu : (w.row d).used=false) : w.holes < cfg.ip6ReassHoles := by
  refine holes_lt hd h.holes h.frags (fun k hk => h.room hk) ?_
  rw [h.holes.free d hd hu]
  exact Nat.zero_le _

theorem opened_filed (h : Ok cfg w fs hs) (hen : f.fragEnd≤65535) (hfi : fi < cfg.ip6ReassFrags)
    (hfr : (w.frag fi).used=false) (hd : d < cfg.ip6ReassDatagrams) (hj' : j < cfg.ip6ReassHoles) (hu : (w.row d).used=false)
    (hj : (w.hole j).used=false) :
    ∃ l m,Filed cfg w (settle cfg (fileIn ((w.tookFrag fi).openedRow cfg a f d j) d fi none8 a f) d f) a f fs hs d fi
      (freshRow cfg w a f j) [⟨0,0xFFFF⟩] l m := by
  have hn : fs d=[] := h.frags.free d hd hu
  let x := (w.tookFrag fi).openedRow cfg a f d j
  have hr : ∀ k,k≠d → x.row k=w.row k := fun k hk => update_of_ne hk _ _
  have hf : x.row d=freshRow cfg w a f j := update_self _ _ _
  have hg : x.gaps [j]=[⟨0,0xFFFF⟩] := by simp [x,gaps,gap,openedRow]
  have hh : HolesOk cfg x (update hs d [j]) :=
    opened_holesOk h.holes hd hu hj' hj hr (by rw [hf]; rfl) (by rw [hf]; rfl) rfl rfl
  have hp : Passed w (freshRow cfg w a f j) f [] :=
    ⟨rfl,by simp,by rintro - ⟨⟩,by simp,by rintro - ⟨⟩,hen⟩
  have hno : ∀ i : ℕ,i∉([] : List ℕ) := fun i => not_mem_nil
  obtain ⟨l,m,hfl⟩ := settle_filed (a := a) (f := f) x [j] h hd hfi hfr
    (fun k hk => update_of_ne hk _ _) (by simp [x,openedRow,tookFrag,setFrag]) rfl rfl rfl hr
    (by rw [hf]; rfl) (by rw [hn,hf]; rfl) (hn.trans (append_nil []).symm)
    (by simp) (fun i hi => (hno i hi).elim) hh
    (fun i _ hiu => update_of_ne (fun he => by rw [he,hj] at hiu; cases hiu) _ _)
    (by rw [hf,hg,hn]; exact freshRow_ok) (by rw [hf,hn]; exact hp) rfl
  rw [hf,hg] at hfl
  exact ⟨l,m,hfl⟩

theorem fileFrag_opens (h : Ok cfg w fs hs) (hcp : w.io.complete=false) (hf : fields a=some f)
    (hb : f.bad a=false) (hj : joinsRow cfg w a=none) : Outcome cfg w a fs hs (fileFrag cfg w none none8 a f) := by
  unfold fileFrag
  have he : f.fragEnd≤65535 := by
    simp [Fields.bad] at hb
    exact hb.1.2
  rcases takeFrag_cases cfg w with ht|⟨fi,hfi,hfr,ht⟩
  · rw [ht]
    exact .unfiled _ (.of_eq rfl rfl rfl ⟨rfl,rfl⟩) (by simp [status]) hcp hj
  rw [ht]
  dsimp only
  rcases openRow_cases (a := a) (f := f) (w.tookFrag fi) h.holes.kept fun d hd hu => h.holes_room hd hu with
    ⟨-,ho⟩ | ⟨d,hd,j,hj',hu,hjf,ho⟩
  · -- no row: the entry goes back
    rw [ho]
    refine .unfiled _ ⟨fun k => ⟨(w.row k).state,rfl⟩,fun i => ?_,fun i hi => ?_,rfl,⟨rfl,rfl⟩,fun _ => .inl rfl⟩
      (by simp [status]) hcp hj
    · by_cases hi : i=fi
      · rw [hi,hfr]
        simp [putFrag,status,setFrag]
      · simp [putFrag,status,tookFrag,setFrag,hi]
    · have hne : i≠fi := by
        rintro rfl
        rw [hfr] at hi
        cases hi
      simp [putFrag,status,tookFrag,setFrag,hne]
  · rw [ho]
    obtain ⟨l,m,hfl⟩ := opened_filed h he hfi hfr hd hj' hu hjf
    exact .filed f d fi _ _ l m _ hf hb (.opens d j hu hj) hfl

theorem judge_cases (cfg : Config) (w : Work) (d : ℕ) (f : Fields) :
    (∃ u,judge cfg w d f=.inl u ∧ (u=w ∨ u=abandonOver w d ∨ u=w.refuse .fragOffset)) ∨
      ∃ prev,judge cfg w d f=.inr prev ∧ scan cfg w d f.offset f.fragLen=.clear prev ∧
        (w.row d).state≠.abandoned ∧ inconsistent cfg w d f=false := by
  unfold judge
  by_cases hst : (w.row d).state=.abandoned
  · exact .inl ⟨w,if_pos hst,.inl rfl⟩
  rw [if_neg hst]
  cases scan cfg w d f.offset f.fragLen with
  | dup => exact .inl ⟨w,rfl,.inl rfl⟩
  | overlap => exact .inl ⟨_,rfl,.inr (.inl rfl)⟩
  | clear prev =>
    dsimp only
    by_cases hi : inconsistent cfg w d f
    · exact .inl ⟨_,if_pos hi,.inr (.inl rfl)⟩
    rw [if_neg hi]
    split_ifs
    · exact .inl ⟨_,rfl,.inr (.inr rfl)⟩
    · exact .inr ⟨prev,rfl,rfl,hst,by simpa using hi⟩

theorem passed_of_clear (hls : w.fragsOf cfg d=fs d) (hst : (w.row d).state=.holding)
    (hsc : scanList w f.offset f.fragLen (fs d) q=.clear prev) (hin : inconsistent cfg w d f=false)
    (he : f.fragEnd≤65535) : Passed w (w.row d) f (fs d) := by
  unfold inconsistent pastEnd at hin
  rw [hls] at hin
  refine ⟨hst,scanList_apart hsc,fun hm hl => ?_,fun hm i hi => ?_,fun hm hl => ?_,he⟩
  · rw [hm,if_pos rfl,hl,Bool.true_and,decide_eq_false_iff_not] at hin
    omega
  · rw [hm,if_neg nofun,Bool.or_eq_false_iff,any_eq_false] at hin
    have hle := hin.1 i hi
    simpa using hle
  · rw [hm,if_neg nofun,hl,Bool.or_eq_false_iff,Bool.true_and] at hin
    simpa using hin.2

/-- A fragment that a held row lets pass is filed in it, or finds the table full. -/
theorem fileFrag_joins (h : Ok cfg w fs hs) (hcp : w.io.complete=false) (hf : fields a=some f)
    (hb : f.bad a=false) (hd : d < cfg.ip6ReassDatagrams) (hu : (w.row d).used) (hst : (w.row d).state=.holding)
    (hsc : scan cfg w d f.offset f.fragLen=.clear prev) (hi : inconsistent cfg w d f=false)
    (hj : joinsRow cfg w a=if (takeFrag cfg w).isSome then some (f,d) else none) :
    Outcome cfg w a fs hs (fileFrag cfg w (some d) prev a f) := by
  unfold fileFrag
  have he : f.fragEnd≤65535 := by
    simp [Fields.bad] at hb
    exact hb.1.2
  have hl : w.fragsOf cfg d=fs d := h.frags.walk frags_le_none hd hu
  unfold scan at hsc
  rw [hl] at hsc
  rcases takeFrag_cases cfg w with ht|⟨fi,hfi,hfr,ht⟩
  · rw [ht] at hj ⊢
    exact .unfiled _ (.of_eq rfl rfl rfl ⟨rfl,rfl⟩) (by simp [status]) hcp hj
  rw [ht] at hj ⊢
  have hsl : update hs d (hs d)=hs := update_eq_self d hs
  obtain ⟨pre,post,hsp,hp,hpr,hps⟩ := scanList_place hsc
  have hpa := passed_of_clear hl hst hsc hi he
  subst hp
  obtain ⟨l,m,hfl⟩ := settle_filed (a := a) (w.tookFrag fi) (hs d) h hd hfi hfr
    (fun k hk => update_of_ne hk _ _) (by simp [tookFrag,setFrag]) rfl rfl rfl (fun k _ => rfl) hu
    (h.frags.chain d hd hu) hsp hpr hps (by rw [hsl]; exact h.holes) (fun _ _ _ => rfl) (h.rows d hd hu) hpa rfl
  exact .filed f d fi _ _ l m _ hf hb (.joins d hu hj) hfl

/-- `file` goes one of those ways. -/
theorem file_outcome (h : Ok cfg w fs hs) (hst : w.io.status=.err) (hcp : w.io.complete=false) :
    Outcome cfg w a fs hs (file cfg w a) := by
  have hr : ∀ e,joinsRow cfg w a=none → Outcome cfg w a fs hs (w.refuse e) := fun e hj =>
    .unfiled _ (.of_eq rfl rfl rfl ⟨rfl,rfl⟩) (by simp [refuse,hst]) hcp hj
  have hlv : joinsRow cfg w a=none → Outcome cfg w a fs hs w := fun hj =>
    .unfiled _ (.of_eq rfl rfl rfl ⟨rfl,rfl⟩) (by simp [hst]) hcp hj
  have hab : ∀ d,joinsRow cfg w a=none → Outcome cfg w a fs hs (abandonOver w d) := by
    intro d hj
    refine .unfiled _ ⟨fun k => ?_,fun _ => rfl,fun _ _ => rfl,rfl,⟨rfl,rfl⟩,fun k => ?_⟩
      (by simp [abandonOver,setRow,hst]) hcp hj
    · by_cases hk : k=d
      · exact ⟨.abandoned,by simp [abandonOver,setRow,hk]⟩
      · exact ⟨(w.row k).state,by simp [abandonOver,setRow,hk]⟩
    · by_cases hk : k=d
      · exact .inr (.inr (by simp [abandonOver,setRow,hk]))
      · exact .inl (by simp [abandonOver,setRow,hk])
  unfold file
  cases hf : fields a with
  | none => exact hlv (by simp [joinsRow,hf])
  | some f =>
    dsimp only
    by_cases hml : f.more ∧ f.fragLen%8≠0
    · rw [if_pos hml]
      exact hr _ (by simp [joinsRow,hf,Fields.bad,hml])
    by_cases hl : 65535<f.fragEnd
    · rw [if_neg hml,if_pos hl]
      exact hr _ (by simp [joinsRow,hf,Fields.bad,hl])
    by_cases hsh : f.offset=0 ∧ chainShort a
    · rw [if_neg hml,if_neg hl,if_pos hsh]
      exact hr _ (by simp [joinsRow,hf,Fields.bad,hsh])
    rw [if_neg hml,if_neg hl,if_neg hsh]
    have hb : f.bad a=false := by
      simp only [Fields.bad,Bool.or_eq_false_iff,Bool.and_eq_false_iff,decide_eq_false_iff_not]
      refine ⟨⟨?_,hl⟩,?_⟩
      · by_cases hmr : f.more
        · exact .inr (by simpa [hmr] using hml)
        · exact .inl (by simpa using hmr)
      · by_cases h0 : f.offset=0
        · exact .inr (by simpa [h0] using hsh)
        · exact .inl h0
    by_cases ha : f.offset=0 ∧ f.more=false
    · rw [if_pos ha]
      exact fileFrag_opens h hcp hf hb (by simp [joinsRow,hf,ha])
    rw [if_neg ha]
    have hat : (f.bad a || decide (f.offset=0) && !f.more)=false := by
      rw [hb,Bool.false_or,Bool.and_eq_false_iff]
      by_cases h0 : f.offset=0
      · exact .inr (by simpa [h0] using ha)
      · exact .inl (decide_eq_false h0)
    cases hm : matchRow cfg w (a.pkt.drop 8) (a.pkt.drop 24) f.ident with
    | none => exact fileFrag_opens h hcp hf hb (by simp [joinsRow,hf,hat,hm])
    | some d =>
      obtain ⟨hmt,hd,-⟩ := firstIndex_some.1 hm
      simp only [Bool.and_eq_true,Bool.or_eq_true,beq_iff_eq] at hmt
      have hu : (w.row d).used := hmt.1.1.1.1
      dsimp only
      rcases judge_cases cfg w d f with ⟨u,hj,hu'⟩|⟨prev,hj,hsc,hna,hi⟩
      · have hjn : joinsRow cfg w a=none := by simp [joinsRow,hf,hat,hm,hj]
        rw [hj]
        rcases hu' with rfl|rfl|rfl
        · exact hlv hjn
        · exact hab d hjn
        · exact hr _ hjn
      · rw [hj]
        have hg : (w.row d).state=.holding := hmt.1.1.1.2.resolve_right hna
        exact fileFrag_joins h hcp hf hb hd hu hg hsc hi (by simp [joinsRow,hf,hat,hm,hj])

/-- The tables as a call finds them, the report set to an error. -/
def Work.started (w : Work) : Work :=
  {w with io := {w.io with
    status := .err
    err := .none
    complete := false
    datagram := none8
    fragCount := 0
    nextHdr := 0
    totalLen := 0}}

/-- A call goes one of those ways, or is refused before it reads the fragment. -/
theorem input_outcome (h : Ok cfg w fs hs) {a : InputArgs} :
    input cfg w a=w.started ∨ Outcome cfg {w.started with nowMs := a.nowMs} a fs hs (input cfg w a) := by
  unfold input
  split_ifs
  · exact .inl rfl
  · exact .inr (file_outcome (h.alike (.of_eq rfl rfl rfl ⟨rfl,rfl⟩)) rfl rfl)

end Filing

end IdemIp.Ip6Reass
