import IdemIp.Ip6ReassTables
import IdemIp.StepRun

/-!
# Runs of the IPv6 reassembler, and who holds a descriptor

Whatever is called after `clear`, the tables stay in order. A call that files its
fragment reports OK, with one exception: a packet that is complete and too long
is given up after its last fragment was filed, and its descriptor is then released
twice.
-/

namespace IdemIp.Ip6Reass

open IndexChain Slots Gaps StepRun List Work Function Bool

/-- A call of the unit after `clear`. -/
inductive Call
  | input (a : InputArgs)
  | fragAt (d index : ℕ)
  | drop (d : ℕ)
  | tick (nowMs : BitVec 32)

variable (cfg : Config)

def step (w : Work) : Call → Work
  | .input a => input cfg w a
  | .fragAt d index => fragAt cfg w d index
  | .drop d => drop cfg w d
  | .tick nowMs => tick cfg w nowMs

section Steps

variable {cfg} {w u : Work} {fs hs : ℕ → List ℕ}

theorem putDatagram_ok (h : Ok cfg w fs hs) {d : ℕ} (hd : d < cfg.ip6ReassDatagrams) (hu : (w.row d).used) :
    Ok cfg (putDatagram cfg w d) (update fs d []) (update hs d []) := by
  have hfs : w.fragsOf cfg d=fs d := h.frags.walk frags_le_none hd hu
  have hhs : w.holesOf cfg d=hs d := h.holes.walk holes_le_none hd hu
  have hfr : ∀ i,(putDatagram cfg w d).frag i=if i∈fs d then {w.frag i with used := false} else w.frag i := by
    intro i
    rw [←hfs]
    rfl
  have hh : ∀ i,(putDatagram cfg w d).hole i=if i∈hs d then {w.hole i with used := false} else w.hole i := by
    intro i
    rw [←hhs]
    rfl
  have hr : ∀ k,k≠d → (putDatagram cfg w d).row k=w.row k := fun k hk => update_of_ne hk _ _
  have hg : (putDatagram cfg w d).row d=.zero := update_self _ _ _
  have hfree : ((putDatagram cfg w d).row d).used=false := by
    rw [hg]
    rfl
  refine ⟨?_,?_,fun k hk huk => ?_⟩
  · show Threaded _ _ _ _ (w.frags-(w.fragsOf cfg d).length) _ _ _ _
    rw [hfs]
    refine h.frags.close hd (fun k hk => by rw [hr k hk]) (fun k hk => by rw [hr k hk]) hfree (fun i _ => ?_) fun i hi => ?_
    · rw [hfr]
      split_ifs <;> rfl
    · unfold fragNext
      rw [hfr,if_neg hi]
  · show Threaded _ _ _ _ (w.holes-(w.holesOf cfg d).length) _ _ _ _
    rw [hhs]
    refine h.holes.close hd (fun k hk => by rw [hr k hk]) (fun k hk => by rw [hr k hk]) hfree (fun i _ => ?_) fun i hi => ?_
    · rw [hh]
      split_ifs <;> rfl
    · unfold holeNext
      rw [hh,if_neg hi]
  · have hkd : k≠d := by
      rintro rfl
      rw [hfree] at huk
      cases huk
    have hgp : (putDatagram cfg w d).gaps (hs k)=w.gaps (hs k) := by
      refine map_congr_left fun i _ => ?_
      unfold gap
      rw [hh]
      split_ifs <;> rfl
    rw [hr k hkd] at huk ⊢
    rw [update_of_ne hkd,update_of_ne hkd,hgp]
    have hb := h.rows k hk huk
    refine ⟨hb.apart,hb.room,hb.missing,fun hfi => ?_,hb.count⟩
    obtain ⟨i,t,hit,ho⟩ := hb.head hfi
    refine ⟨i,t,hit,?_⟩
    rw [hfr]
    split_ifs <;> exact ho

/-- A row in use is dropped, any other call of `drop` reports an error. -/
theorem drop_cases (cfg : Config) (w : Work) (d : ℕ) :
    (¬(w.ready ∧ d < cfg.ip6ReassDatagrams ∧ (w.row d).used) ∧ drop cfg w d=w.status .err) ∨
      (w.ready ∧ d < cfg.ip6ReassDatagrams ∧ (w.row d).used) ∧
        drop cfg w d=(putDatagram cfg (w.status .err) d).status .ok := by
  unfold drop
  split_ifs with hin hfr
  · refine .inl ⟨fun hno => ?_,rfl⟩
    simp [hno.1] at hin
    omega
  · refine .inl ⟨fun hno => ?_,rfl⟩
    simp [hno.2.2] at hfr
  · simp at hin hfr
    exact .inr ⟨⟨hin.1,hin.2,hfr⟩,rfl⟩

theorem tick_alike {cfg : Config} {w : Work} {now : BitVec 32} : Alike w (tick cfg w now) := by
  have ha : ∀ r : Datagram,∃ st,r.aged now={r with state := st} ∧ (st=r.state ∨ st=.expired ∨ st=.abandoned) := by
    intro r
    unfold Datagram.aged
    split_ifs
    · exact ⟨r.state,rfl,.inl rfl⟩
    · split
      · exact ⟨.expired,rfl,.inr (.inl rfl)⟩
      · exact ⟨.abandoned,rfl,.inr (.inr rfl)⟩
      · exact ⟨r.state,rfl,.inl rfl⟩
    · exact ⟨r.state,rfl,.inl rfl⟩
  unfold tick
  dsimp only
  split
  · exact .of_eq rfl rfl rfl ⟨rfl,rfl⟩
  have hr : ∀ k,∃ st,(if k < cfg.ip6ReassDatagrams then (w.row k).aged now else w.row k)={w.row k with state := st} ∧
      (st=(w.row k).state ∨ st=.expired ∨ st=.abandoned) := by
    intro k
    split_ifs
    · exact ha (w.row k)
    · exact ⟨(w.row k).state,rfl,.inl rfl⟩
  choose st hst hc using hr
  simp only [hst]
  split <;> exact ⟨fun k => ⟨st k,rfl⟩,fun _ => rfl,fun _ _ => rfl,rfl,⟨rfl,rfl⟩,hc⟩

theorem fragAt_alike {cfg : Config} {w : Work} {d index : ℕ} : Alike w (fragAt cfg w d index) := by
  unfold fragAt
  split_ifs <;> exact .of_eq rfl rfl rfl ⟨rfl,rfl⟩

theorem input_ok (h : Ok cfg w fs hs) (a : InputArgs) : ∃ fs' hs',Ok cfg (input cfg w a) fs' hs' := by
  have hstart : Ok cfg {w.started with nowMs := a.nowMs} fs hs := h.alike (.of_eq rfl rfl rfl ⟨rfl,rfl⟩)
  rcases input_outcome h with he|ho
  · rw [he]
    exact ⟨fs,hs,h.alike (.of_eq rfl rfl rfl ⟨rfl,rfl⟩)⟩
  generalize input cfg w a=u at ho
  cases ho with
  | unfiled u ha hst hc hj => exact ⟨fs,hs,hstart.alike ha⟩
  | filed f d fi r gs l m u hf hbad hg hfl => exact ⟨_,_,hfl.ok hstart⟩

theorem step_ok (w : Work) (c : Call) (h : ∃ fs hs,Ok cfg w fs hs) : ∃ fs hs,Ok cfg (step cfg w c) fs hs := by
  obtain ⟨fs,hs,h⟩ := h
  cases c with
  | input a => exact input_ok h a
  | fragAt d index => exact ⟨fs,hs,h.alike (fragAt_alike)⟩
  | tick nowMs => exact ⟨fs,hs,h.alike (tick_alike)⟩
  | drop d =>
    have hst : Ok cfg (w.status .err) fs hs := h.alike (.of_eq rfl rfl rfl ⟨rfl,rfl⟩)
    show ∃ fs hs,Ok cfg (drop cfg w d) fs hs
    rcases drop_cases cfg w d with ⟨-,he⟩|⟨⟨-,hd,hu⟩,he⟩
    · rw [he]
      exact ⟨fs,hs,hst⟩
    · rw [he]
      exact ⟨_,_,(putDatagram_ok hst hd hu).alike (.of_eq rfl rfl rfl ⟨rfl,rfl⟩)⟩

end Steps

section Ledger

/-- Entries of the table that name a descriptor. -/
def held (w : Work) (desc : ℕ) : ℕ :=
  (List.range cfg.ip6ReassFrags).countP fun i => (w.frag i).used && (w.frag i).desc==desc

/-- Descriptors the flush of a row reads out of it, `t_flush_ip6_reass`. -/
def flushed (w : Work) (d : ℕ) : List ℕ :=
  (List.range (w.row d).fragCount).filterMap fun index =>
    let io := (fragAt cfg w d index).io
    if io.status=.ok then some io.fragDesc else none

/-- How often a call has a descriptor released: by its caller when it reports no success, by the flush of a row. -/
def released (desc : ℕ) (w : Work) : Call → ℕ
  | .input a => if (input cfg w a).io.status≠.ok ∧ a.desc=desc then 1 else 0
  | .drop d => (flushed cfg w d).count desc
  | .fragAt _ _ => 0
  | .tick _ => 0

/-- How often a call brings a descriptor. -/
def offered (desc : ℕ) (_ : Work) : Call → ℕ
  | .input a => if a.desc=desc then 1 else 0
  | _ => 0

/-- Whether a fragment fills the last gap of a row whose packet is too long. -/
def overlong (w : Work) (a : InputArgs) : Bool :=
  match joinsRow cfg w a with
  | none => false
  | some (f,d) =>
    w.ready && ((w.holesOf cfg d).all fun h =>
      decide (f.offset≤(w.hole h).first) && (!f.more || decide ((w.hole h).last<f.fragEnd))) &&
    decide (65535<(if f.offset=0 then f.hdrLen else (w.frag (w.row d).fragHead).hdrLen)-48+
      (if f.more then (w.row d).fragEnd else f.fragEnd))

/-- A call fits unless it is such a fragment. -/
def Fits (w : Work) : Call → Prop
  | .input a => overlong cfg w a=false
  | _ => True

/-- A fragment's descriptor comes into the tables exactly when the call reports OK. -/
def KeepsWhenOk (w : Work) : Call → Prop
  | .input a => ∀ desc,held cfg (input cfg w a) desc=held cfg w desc+
      if (input cfg w a).io.status=.ok ∧ a.desc=desc then 1 else 0
  | _ => True

variable {cfg} {w u : Work} {fs hs : ℕ → List ℕ}

/-- The entries that name a descriptor are counted along the lists of the rows. -/
theorem held_flat (h : Ok cfg w fs hs) (desc : ℕ) :
    held cfg w desc=(flat cfg.ip6ReassDatagrams fs).countP fun i => (w.frag i).desc==desc := by
  rw [h.frags.kept.perm_range.countP_eq,countP_filter]
  refine countP_congr fun i _ => ?_
  rw [Bool.and_comm]

theorem held_alike (ha : Alike w u) (desc : ℕ) : held cfg u desc=held cfg w desc := by
  refine countP_congr fun i _ => ?_
  rw [ha.used i]
  cases hu : (w.frag i).used with
  | false => simp
  | true => rw [ha.frag i hu]

theorem held_filed {a : InputArgs} {f : Fields} {d fi : ℕ} {r : Datagram} {gs : List Gap} {l m : List ℕ}
    (h : Ok cfg w fs hs) (hf : Filed cfg w u a f fs hs d fi r gs l m) (desc : ℕ) :
    held cfg u desc=held cfg w desc+if a.desc=desc then 1 else 0 := by
  have hp : (flat cfg.ip6ReassDatagrams (update fs d l)).Perm (fi::flat cfg.ip6ReassDatagrams fs) :=
    (flat_update hf.row_lt).trans ((hf.perm.append_right _).trans ((flat_split hf.row_lt).symm.cons fi))
  obtain ⟨n,hn⟩ := hf.entry
  have hr : (flat cfg.ip6ReassDatagrams fs).countP (fun i => (u.frag i).desc==desc)=
      (flat cfg.ip6ReassDatagrams fs).countP fun i => (w.frag i).desc==desc := by
    refine countP_congr fun i hi => ?_
    obtain ⟨k,hk⟩ := hf.linked ((h.frags.kept.mem i).1 hi).2
    rw [hk]
  rw [held_flat (hf.ok h),held_flat h,hp.countP_eq,countP_cons,hr,hn]
  simp

theorem flushed_used (h : Ok cfg w fs hs) {d : ℕ} (hr : w.ready) (hd : d < cfg.ip6ReassDatagrams)
    (hu : (w.row d).used) : flushed cfg w d=(fs d).map fun i => (w.frag i).desc := by
  have hc := h.frags.chain d hd hu
  have hlen := hc.length_le frags_le_none
  have hrd : ∀ index i,(fs d)[index]?=some i →
      (fragAt cfg w d index).io.status=.ok ∧ (fragAt cfg w d index).io.fragDesc=(w.frag i).desc := by
    intro index i hi
    obtain ⟨hlt,-⟩ := List.getElem?_eq_some_iff.1 hi
    unfold fragAt
    have hin : (!w.ready || decide (cfg.ip6ReassDatagrams≤d) || decide (cfg.ip6ReassFrags ≤ index))=false := by
      simp [hr]
      omega
    have hcn : (!(w.row d).used || decide ((w.row d).fragCount ≤ index))=false := by
      simp [hu,(h.rows d hd hu).count]
      omega
    simp only [hin,hcn,false_eq_true,if_false]
    exact ⟨trivial,by rw [hc.iterate hi]⟩
  unfold flushed
  rw [(h.rows d hd hu).count]
  refine filterMap_range fun index i hi => ?_
  obtain ⟨hok,hds⟩ := hrd index i hi
  simp only [hok,hds,if_true]

theorem flushed_other {d : ℕ} (hno : ¬(w.ready ∧ d < cfg.ip6ReassDatagrams ∧ (w.row d).used)) : flushed cfg w d=[] := by
  refine filterMap_eq_nil_iff.2 fun index _ => ?_
  have he : (fragAt cfg w d index).io.status=.err := by
    unfold fragAt
    split_ifs with hin hc
    · rfl
    · rfl
    · simp at hin hc
      exact absurd ⟨hin.1.1,hin.1.2,hc.1⟩ hno
  simp [he]

theorem held_drop (h : Ok cfg w fs hs) {d desc : ℕ} :
    held cfg (drop cfg w d) desc+(flushed cfg w d).count desc=held cfg w desc := by
  rcases drop_cases cfg w d with ⟨hno,he⟩|⟨⟨hr,hd,hu⟩,he⟩
  · rw [flushed_other hno,he,count_nil]
    exact held_alike (.of_eq rfl rfl rfl ⟨rfl,rfl⟩) desc
  have hst : Ok cfg (w.status .err) fs hs := h.alike (.of_eq rfl rfl rfl ⟨rfl,rfl⟩)
  have hok : Ok cfg (drop cfg w d) (update fs d []) (update hs d []) := by
    rw [he]
    exact (putDatagram_ok hst hd hu).alike (.of_eq rfl rfl rfl ⟨rfl,rfl⟩)
  have hds : ∀ i,((drop cfg w d).frag i).desc=(w.frag i).desc := by
    intro i
    rw [he]
    unfold putDatagram
    dsimp only [status]
    split_ifs <;> rfl
  have hsp : (flat cfg.ip6ReassDatagrams fs).Perm (fs d++flat cfg.ip6ReassDatagrams (update fs d [])) :=
    flat_split hd
  have ho := held_flat h desc
  rw [hsp.countP_eq,countP_append] at ho
  rw [flushed_used h hr hd hu,held_flat hok,ho]
  simp only [hds,count,countP_map]
  exact Nat.add_comm _ _

theorem fields_total {a : InputArgs} {f : Fields} (h : fields a=some f) : f.hdrLen-48+f.fragLen≤65527 := by
  have hpl : Ip6.payloadLen a.pkt<2^16 := BitVec.isLt _
  unfold fields at h
  dsimp only at h
  split_ifs at h with h1 h2 h3
  cases h
  dsimp only
  omega

theorem scan_congr (hr : u.row=w.row) (hf : u.frag=w.frag) (d o n : ℕ) : scan cfg u d o n=scan cfg w d o n := by
  have hl : ∀ l p,scanList u o n l p=scanList w o n l p := by
    intro l
    induction l with
    | nil => exact fun _ => rfl
    | cons i l ih =>
      intro p
      unfold scanList
      rw [hf]
      simp only [ih]
  unfold scan fragsOf fragNext
  rw [hr,hf]
  exact hl _ _

theorem judge_congr (hr : u.row=w.row) (hf : u.frag=w.frag) (d : ℕ) (f : Fields) :
    (judge cfg u d f).isRight=(judge cfg w d f).isRight := by
  have hi : inconsistent cfg u d f=inconsistent cfg w d f := by
    unfold inconsistent pastEnd fragsOf fragNext
    rw [hr,hf]
  unfold judge
  rw [scan_congr hr hf,hi,hr,hf]
  by_cases hst : (w.row d).state=.abandoned
  · rw [if_pos hst,if_pos hst]
    rfl
  rw [if_neg hst,if_neg hst]
  cases scan cfg w d f.offset f.fragLen with
  | dup => rfl
  | overlap => rfl
  | clear prev =>
    split_ifs <;> rfl

theorem joinsRow_eq (w : Work) (a : InputArgs) : joinsRow cfg w a=(fields a).bind fun f =>
      if f.bad a || decide (f.offset=0) && !f.more then none
      else (matchRow cfg w (a.pkt.drop 8) (a.pkt.drop 24) f.ident).bind fun d =>
        if (judge cfg w d f).isRight && (takeFrag cfg w).isSome then some (f,d) else none := by
  unfold joinsRow
  cases fields a with
  | none => rfl
  | some f =>
    simp only [Option.bind_some]
    by_cases hb : (f.bad a || decide (f.offset=0) && !f.more)
    · rw [if_pos hb,if_pos hb]
    rw [if_neg hb,if_neg hb]
    cases matchRow cfg w (a.pkt.drop 8) (a.pkt.drop 24) f.ident with
    | none => rfl
    | some d =>
      simp only [Option.bind_some]
      cases judge cfg w d f with
      | inl v => rfl
      | inr p => rfl

/-- Only the rows, the fragments and their counter say which row a fragment joins. -/
theorem joinsRow_congr (a : InputArgs) (hr : u.row=w.row) (hf : u.frag=w.frag) (hc : u.frags=w.frags) :
    joinsRow cfg u a=joinsRow cfg w a := by
  have hm : ∀ x y k,matchRow cfg u x y k=matchRow cfg w x y k := by
    intro x y k
    unfold matchRow
    rw [hr]
  have ht : (takeFrag cfg u).isSome=(takeFrag cfg w).isSome := by
    unfold takeFrag
    rw [hf,hc]
    split_ifs
    · rfl
    · rw [Option.isSome_map,Option.isSome_map]
  rw [joinsRow_eq,joinsRow_eq]
  simp only [hm,judge_congr hr hf,ht]

theorem all_holesOf (h : Ok cfg w fs hs) {d : ℕ} (hd : d < cfg.ip6ReassDatagrams) (hu : (w.row d).used)
    (f : Fields) : (w.holesOf cfg d).all (fun i =>
      decide (f.offset≤(w.hole i).first) && (!f.more || decide ((w.hole i).last<f.fragEnd))) ↔
      ∀ g∈w.gaps (hs d),f.offset≤g.first ∧ (f.more → g.last<f.fragEnd) := by
  have hl : w.holesOf cfg d=hs d := h.holes.walk holes_le_none hd hu
  rw [hl,all_eq_true]
  unfold gaps
  rw [forall_mem_map]
  refine forall₂_congr fun i _ => ?_
  unfold gap
  cases f.more <;> simp

variable {a : InputArgs} {f : Fields} {d fi : ℕ} {r : Datagram} {gs : List Gap} {l m : List ℕ}

variable (hf : Filed cfg w u a f fs hs d fi r gs l m)
include hf

/-- A filed fragment leaves nothing missing exactly when it reaches from the first gap on, to the last if more follow. -/
theorem Filed.nil_iff : m=[] ↔ ∀ g∈gs,f.offset≤g.first ∧ (f.more → g.last<f.fragEnd) := by
  have hle : f.offset≤f.fragEnd := Nat.le_add_right _ _
  have hg := hf.gaps
  rw [←hf.base.apart.take_nil_iff hle,←hg]
  unfold Work.gaps
  rw [map_eq_nil_iff]

theorem Filed.seen (hm : m=[]) : f.offset=0 ∨ r.firstSeen := by
  cases hfr : r.firstSeen with
  | true => exact .inr rfl
  | false =>
    obtain ⟨g,hg,hlow,-⟩ := hf.base.missing hfr
    have hreach := (hf.nil_iff.1 hm g hg).1
    exact .inl (by omega)

/-- The row of a filed fragment is in use if it was in use or opened. -/
theorem Filed.used (hu : r.used) : (u.row d).used := by
  obtain ⟨fh,hh,st,total,hr⟩ := hf.row
  rw [hr,Datagram.learned_eq]
  exact hu

theorem Filed.payload (h : Ok cfg w fs hs) (hm : m=[])
    (hu : r.used) (hhd : Chain w.fragNext cfg.ip6ReassFrags none8 r.fragHead (fs d)) :
    payloadLen u d=(if f.offset=0 then f.hdrLen else (w.frag r.fragHead).hdrLen)-48+
      (if f.more then r.fragEnd else f.fragEnd) := by
  obtain ⟨fh,hh,st,total,hr⟩ := hf.row
  have he : (u.row d).fragEnd=if f.more then r.fragEnd else f.fragEnd := by
    rw [hr,Datagram.learned_eq]
  have hc := hf.frags.chain d hf.row_lt (hf.used hu)
  rw [update_self] at hc
  unfold payloadLen
  rw [he]
  by_cases h0 : f.offset=0
  · obtain ⟨n,hn⟩ := hf.entry
    rw [hf.first h0] at hc
    rw [if_pos h0,hc.1,hn]
  obtain ⟨i,t,hit,ho⟩ := hf.base.head ((hf.seen hm).resolve_left h0)
  obtain ⟨t',ht'⟩ := hf.rest h0 i t hit ho
  obtain ⟨n,hn⟩ := hf.linked (h.frags.kept.used_of_mem hf.row_lt (show i∈fs d by rw [hit]; exact mem_cons_self)).2
  rw [ht'] at hc
  rw [hit] at hhd
  rw [if_neg h0,hc.1,hhd.1,hn]

theorem Filed.status_iff (hst : w.io.status=.err) : u.io.status=.ok ↔ ¬(m=[] ∧ 65535<payloadLen u d) := by
  by_cases hm : m=[]
  · by_cases hl : 65535<payloadLen u d
    · rw [(hf.tooLong hm hl).1,hst]
      exact iff_of_false (by simp) fun hno => hno ⟨hm,hl⟩
    · rw [(hf.done hm (by omega)).1]
      exact iff_of_true rfl fun hy => hl hy.2
  · rw [(hf.pending hm).1]
    exact iff_of_true rfl fun hy => hm hy.1

omit hf

/-- A fragment that joins no row is not the last of a packet too long. -/
theorem overlong_none (hj : joinsRow cfg w a=none) : overlong cfg w a=false := by
  unfold overlong
  rw [hj]

theorem overlong_congr (hy : u.ready=w.ready) (hr : u.row=w.row) (hf : u.frag=w.frag) (hh : u.hole=w.hole)
    (hc : u.frags=w.frags) : overlong cfg u a=overlong cfg w a := by
  unfold overlong holesOf holeNext
  rw [joinsRow_congr a hr hf hc,hy,hr,hf,hh]

/-- A fragment that joins a row is, when it fills what the row misses and the packet is too long. -/
theorem Filed.overlong_iff (h : Ok cfg w fs hs) (hf : Filed cfg w u a f fs hs d fi (w.row d) (w.gaps (hs d)) l m)
    (hr : w.ready) (hu : (w.row d).used) (hj : joinsRow cfg w a=some (f,d)) :
    overlong cfg w a ↔ m=[] ∧ 65535<payloadLen u d := by
  have hg := all_holesOf h hf.row_lt hu f
  rw [←hf.nil_iff] at hg
  unfold overlong
  rw [hj]
  simp only [hr,Bool.true_and,Bool.and_eq_true,decide_eq_true_eq]
  rw [hg]
  refine and_congr_right fun hm => ?_
  rw [hf.payload h hm hu (h.frags.chain d hf.row_lt hu)]

theorem Filed.opened_fits {j : ℕ} (h : Ok cfg w fs hs) (hf : Filed cfg w u a f fs hs d fi (freshRow cfg w a f j) [⟨0,0xFFFF⟩] l m)
    (hfr : (w.row d).used=false) (hfl : fields a=some f) (hb : f.bad a=false) : ¬(m=[] ∧ 65535<payloadLen u d) := by
  rintro ⟨hm,hl⟩
  obtain ⟨ho,hmr⟩ := hf.nil_iff.1 hm ⟨0,0xFFFF⟩ (mem_singleton_self _)
  have hend : f.fragEnd≤65535 := by
    simp [Fields.bad] at hb
    exact hb.1.2
  have hls : f.more=false := by
    by_contra hmt
    have hpast : 65535<f.fragEnd := hmr (by simpa using hmt)
    omega
  have h0 : f.offset=0 := Nat.le_zero.1 ho
  have htotal := fields_total hfl
  rw [hf.payload h hm rfl (by rw [h.frags.free d hf.row_lt hfr]; rfl),if_pos h0,hls] at hl
  unfold Fields.fragEnd at hl
  simp only [h0,false_eq_true,if_false] at hl
  omega

/-- A call brings its descriptor in when it reports OK, and, without OK, with the last fragment of a packet too long. -/
theorem input_ledger (h : Ok cfg w fs hs) {a : InputArgs} : (∀ desc,held cfg (input cfg w a) desc=held cfg w desc+
      if ((input cfg w a).io.status=.ok ∨ overlong cfg w a) ∧ a.desc=desc then 1 else 0) ∧
      (overlong cfg w a → (input cfg w a).io.status≠.ok) := by
  by_cases hin : (!w.ready || decide (a.len<40))
  · -- refused before the fragment is read
    have hi : input cfg w a=w.started := by
      exact if_pos hin
    have hno : overlong cfg w a=false := by
      rcases or_eq_true_iff.1 hin with hr|hln
      · unfold overlong
        rw [not_eq_true'] at hr
        rw [hr]
        cases joinsRow cfg w a <;> rfl
      refine overlong_none ?_
      have hn : fields a=none := by
        have hlen' : a.len<40 := by simpa using hln
        exact if_pos (by omega)
      unfold joinsRow
      rw [hn]
    rw [hi,hno]
    refine ⟨fun desc => ?_,nofun⟩
    rw [held_alike (u := w.started) (w := w) (.of_eq rfl rfl rfl ⟨rfl,rfl⟩)]
    simp [started]
  have hrd : w.ready := by
    simp at hin
    exact hin.1
  have hstart : Ok cfg {w.started with nowMs := a.nowMs} fs hs := h.alike (.of_eq rfl rfl rfl ⟨rfl,rfl⟩)
  have hi : input cfg w a=file cfg {w.started with nowMs := a.nowMs} a := by
    exact if_neg hin
  have hsm : overlong cfg {w.started with nowMs := a.nowMs} a=overlong cfg w a := overlong_congr rfl rfl rfl rfl rfl
  have hh : ∀ desc,held cfg {w.started with nowMs := a.nowMs} desc=held cfg w desc := fun desc => rfl
  have ho : Outcome cfg {w.started with nowMs := a.nowMs} a fs hs (input cfg w a) := by
    rw [hi]
    exact file_outcome hstart rfl rfl
  rw [←hsm]
  simp only [←hh]
  generalize input cfg w a=u at ho
  cases ho with
  | unfiled _ ha hst hc hj =>
    rw [overlong_none hj]
    refine ⟨fun desc => ?_,nofun⟩
    rw [held_alike ha]
    simp [hst]
  | filed f d fi r gs l m _ hf hb hg hfl =>
    have hstatus := hfl.status_iff rfl
    have hp : (u.io.status=.ok ∨ overlong cfg {w.started with nowMs := a.nowMs} a) ∧
        (overlong cfg {w.started with nowMs := a.nowMs} a → u.io.status≠.ok) := by
      cases hg with
      | joins hu hj =>
        rw [hstatus,Ne,hstatus,hfl.overlong_iff hstart hrd hu hj]
        exact ⟨(Classical.em _).symm,fun hl hno => hno hl⟩
      | opens j hfr hj =>
        rw [overlong_none hj]
        exact ⟨.inl (hstatus.2 (hfl.opened_fits hstart hfr hf hb)),nofun⟩
    refine ⟨fun desc => ?_,hp.2⟩
    rw [held_filed hstart hfl]
    simp [hp.1]

/-- A call brings its descriptor in exactly when it reports OK, unless the packet is too long. -/
theorem keepsWhenOk_iff (w : Work) (c : Call) (h : ∃ fs hs,Ok cfg w fs hs) : KeepsWhenOk cfg w c ↔ Fits cfg w c := by
  obtain ⟨fs,hs,h⟩ := h
  cases c with
  | input a =>
    obtain ⟨hh,hst⟩ := input_ledger h
    show (∀ desc,_) ↔ overlong cfg w a=false
    cases hl : overlong cfg w a with
    | false =>
      refine iff_of_true (fun desc => ?_) rfl
      rw [hh desc,hl]
      simp
    | true =>
      refine iff_of_false (fun hkp => ?_) (by simp)
      have hk := hkp a.desc
      rw [hh a.desc,hl] at hk
      simp [hst hl] at hk
  | fragAt d index => exact Iff.rfl
  | drop d => exact Iff.rfl
  | tick nowMs => exact Iff.rfl

/-- How often a call has a descriptor released too often. -/
def excess (cfg : Config) (desc : ℕ) (w : Work) : Call → ℕ
  | .input a => if overlong cfg w a=true ∧ a.desc=desc then 1 else 0
  | _ => 0

/-- Over one call, what is held and what is released is what was held and brought, but for the excess. -/
theorem step_ledger (desc : ℕ) (w : Work) (c : Call) (h : ∃ fs hs,Ok cfg w fs hs) :
    held cfg (step cfg w c) desc+released cfg desc w c=held cfg w desc+(offered desc w c+excess cfg desc w c) := by
  obtain ⟨fs,hs,h⟩ := h
  cases c with
  | input a =>
    obtain ⟨hh,hst⟩ := input_ledger h
    dsimp only [step,released,offered,excess]
    rw [hh desc]
    by_cases hd : a.desc=desc
    · cases hl : overlong cfg w a with
      | false =>
        by_cases hok : (input cfg w a).io.status=.ok <;> simp [hd,hok]
      | true => simp [hd,hst hl]
    · simp [hd]
  | fragAt d index => exact held_alike (fragAt_alike) desc
  | drop d => exact held_drop h
  | tick nowMs => exact held_alike (tick_alike) desc

theorem excess_iff {w : Work} {c : Call} : (∀ desc,excess cfg desc w c=0) ↔ Fits cfg w c := by
  cases c with
  | input a =>
    show (∀ desc,(if overlong cfg w a ∧ a.desc=desc then 1 else 0)=0) ↔ overlong cfg w a=false
    cases hlong : overlong cfg w a with
    | false => simp
    | true => simp
  | fragAt d index => exact iff_of_true (fun _ => rfl) trivial
  | drop d => exact iff_of_true (fun _ => rfl) trivial
  | tick nowMs => exact iff_of_true (fun _ => rfl) trivial

/-- Along every run descriptors come in exactly with OK and each is released once, exactly when no packet is too long. -/
theorem run_releases_once_iff (cfg : Config) (w : Work) (cs : List Call) :
    (Along (step cfg) (KeepsWhenOk cfg) (clear w) cs ↔ Along (step cfg) (Fits cfg) (clear w) cs) ∧
      ((∀ desc,held cfg (run (step cfg) (clear w) cs) desc+total (step cfg) (released cfg desc) (clear w) cs=
        total (step cfg) (offered desc) (clear w) cs) ↔ Along (step cfg) (Fits cfg) (clear w) cs) := by
  have hclear : ∃ fs hs,Ok cfg (clear w) fs hs := ⟨_,_,ok_clear w⟩
  refine ⟨along_congr step_ok keepsWhenOk_iff hclear,?_⟩
  have hnone : ∀ desc,held cfg (clear w) desc=0 := fun desc => countP_eq_zero.2 fun i _ => by simp [clear]
  have hledger : ∀ desc,held cfg (run (step cfg) (clear w) cs) desc+total (step cfg) (released cfg desc) (clear w) cs=
      total (step cfg) (offered desc) (clear w) cs+total (step cfg) (excess cfg desc) (clear w) cs := by
    intro desc
    have hrun := run_ledger (fun w => held cfg w desc) step_ok (step_ledger desc) hclear cs
    rw [total_add,hnone desc,Nat.zero_add] at hrun
    exact hrun
  have hzero : (∀ desc,total (step cfg) (excess cfg desc) (clear w) cs=0) ↔ Along (step cfg) (Fits cfg) (clear w) cs := by
    simp only [total_eq_zero_iff]
    rw [along_forall]
    exact along_congr step_ok (fun w c _ => excess_iff) hclear
  rw [←hzero]
  refine forall_congr' fun desc => ?_
  have hl := hledger desc
  omega

/-- The unit before `clear`. -/
def unmarked : Work :=
  ⟨false,0,0,0,0,fun _ => .zero,fun _ => ⟨0,0,0,0,0,false⟩,fun _ => ⟨0,0,0,false⟩,⟨.err,.none,false,0,0,0,0,0,0,0,0⟩⟩

/-- The last fragment of a packet, octets 32768 to 65534. -/
def tailFrag : InputArgs :=
  ⟨.ofList ([0x60,0,0,0,0x80,0x07,44,64]++List.replicate 32 0x20++[59,0,0x80,0,0,0,0,1]),32815,40,0,0⟩

/-- The first one, octets 0 to 32767, with eight octets of Destination Options before its Fragment header. -/
def headFrag : InputArgs :=
  ⟨.ofList ([0x60,0,0,0,0x80,0x10,60,64]++List.replicate 32 0x20++[44,0,1,4,0,0,0,0]++[59,0,0,1,0,0,0,1]),32824,48,1,0⟩

/-- The two make 65543 octets: the second is an error and kept, so its descriptor is released twice. -/
theorem overlong_released_twice :
    let w := input .shipped (clear unmarked) tailFrag
    let u := input .shipped w headFrag
    u.io.status=.err ∧ held .shipped w 1=0 ∧ held .shipped u 1=1 ∧ ¬KeepsWhenOk .shipped w (.input headFrag) ∧
      total (step .shipped) (released .shipped 1) (clear unmarked) [.input tailFrag,.input headFrag,.tick 60000,.drop 0]=2 ∧
      total (step .shipped) (offered 1) (clear unmarked) [.input tailFrag,.input headFrag,.tick 60000,.drop 0]=1 := by
  refine ⟨by decide +kernel,by decide +kernel,by decide +kernel,fun h => ?_,by decide +kernel,by decide +kernel⟩
  exact absurd (h 1) (by decide +kernel)

end Ledger

end IdemIp.Ip6Reass
