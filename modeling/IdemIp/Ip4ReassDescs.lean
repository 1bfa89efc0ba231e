import IdemIp.Ip4ReassCalls

/-!
# What the IPv4 reassembler is given and what it completes

A descriptor comes in with a `hold` that reports OK and leaves with a `reclaim` that
does, for the tables as a whole and for every row. A datagram has the header of its
first fragment, and where that is longer than the last one's it can pass 65535
octets.
-/

namespace IdemIp.Ip4Reass

section Descriptors

open IndexChain Slots StepRun List Function

variable (cfg : Config) (rows : ℕ → Bool) (w : Work)

/-- Descriptor a call gave to one of some rows. -/
def gives : Call → List ℕ
  | .hold a => if (hold cfg w a).io.status=.ok ∧ rows (hold cfg w a).io.index then [a.desc] else []
  | _ => []

/-- Descriptor a call handed back from one of some rows. -/
def takes : Call → List ℕ
  | .reclaim => if (reclaim cfg w).io.status=.ok ∧ rows (reclaim cfg w).io.index then [(reclaim cfg w).io.desc] else []
  | _ => []

/-- Descriptors on the lists of some rows. -/
def Work.stock : List ℕ :=
  (List.range cfg.ip4ReassDatagrams).flatMap fun d =>
    if rows d && (w.row d).state != .free then (w.frags cfg d).map fun i => (w.frag i).desc else []

/-- Descriptors in the fragment table. -/
def Work.descs : List ℕ :=
  ((List.range cfg.ip4ReassFrags).filter fun i => (w.frag i).state != .free).map fun i => (w.frag i).desc

/-- A row that is done with: it is free, or waits for its descriptors to be handed back. -/
def Work.Done (d : ℕ) : Prop := (w.row d).state=.free ∨ (w.row d).state=.reclaim

section Stock

variable {cfg} {w u : Work} {mem : Memory} {fs hs fs' hs' : ℕ → List ℕ} {rows : ℕ → Bool} {d : ℕ} {c : Call}

/-- The lists of some rows. -/
def among (rows : ℕ → Bool) (fs : ℕ → List ℕ) : ℕ → List ℕ := fun d => if rows d then fs d else []

theorem among_off {rows : ℕ → Bool} {fs : ℕ → List ℕ} {d : ℕ} (hr : rows d=false) : update (among rows fs) d []=among rows fs := by
  refine update_eq_self_iff.2 ?_
  unfold among
  rw [hr]
  rfl

theorem among_update (rows : ℕ → Bool) (fs : ℕ → List ℕ) (d : ℕ) (l : List ℕ) :
    among rows (update fs d l)=update (among rows fs) d (if rows d then l else []) := by
  funext k
  unfold among
  by_cases hk : k=d
  · rw [hk,update_self,update_self]
  · rw [update_of_ne hk,update_of_ne hk]

theorem Ok.stock_eq (h : Ok cfg ⟨w,mem⟩ fs hs) (rows : ℕ → Bool) :
    w.stock cfg rows=(flat cfg.ip4ReassDatagrams (among rows fs)).map fun i => (w.frag i).desc := by
  unfold Work.stock flat
  rw [map_flatMap]
  refine flatMap_congr fun d hd => ?_
  have hd := mem_range.1 hd
  unfold among
  cases hr : rows d with
  | false => rfl
  | true =>
    cases hu : (w.row d).state != .free with
    | true =>
      have hl : w.frags cfg d=fs d := h.frags.walk frags_le_none hd hu
      rw [hl]
      rfl
    | false =>
      rw [show fs d=[] from h.frags.free d hd hu]
      rfl

theorem Ok.stock_all (h : Ok cfg ⟨w,mem⟩ fs hs) : (w.stock cfg fun _ => true).Perm (w.descs cfg) := by
  rw [h.stock_eq]
  exact h.frags.kept.perm_range.map _

theorem Work.stock_free (h : (w.row d).state=.free) : w.stock cfg (fun k => k==d)=[] := by
  refine flatMap_eq_nil_iff.2 fun k _ => ?_
  by_cases hk : k=d
  · rw [hk,h]
    simp
  · simp [hk]

theorem Change.stock (h : Ok cfg ⟨w,mem⟩ fs hs) (hc : Change cfg w mem fs hs c (step cfg w c) fs' hs') (rows : ℕ → Bool) :
    ((step cfg w c).stock cfg rows++takes cfg rows w c).Perm (w.stock cfg rows++gives cfg rows w c) := by
  have hnew := (hc.ok h).stock_eq rows
  have hsl : c.Silent (step cfg w c) → takes cfg rows w c=[] ∧ gives cfg rows w c=[] := by
    intro hs
    cases c with
    | hold a => exact ⟨rfl,if_neg fun hok => hs hok.1⟩
    | reclaim => exact ⟨if_neg fun hok => hs hok.1,rfl⟩
    | next i => exact ⟨rfl,rfl⟩
    | release i => exact ⟨rfl,rfl⟩
    | tick nowMs => exact ⟨rfl,rfl⟩
  rw [hnew,h.stock_eq rows]
  cases hc with
  | alike ha hio =>
    rw [(hsl hio).1,(hsl hio).2,ha.frag]
  | shut hs hits gone hio =>
    rw [(hsl hio).1,(hsl hio).2,hs.frag]
  | @filed a v hl d fi pre post m hc was named seat agrees len hf =>
    subst hc
    have hd := seat.row_lt
    have hg : gives cfg rows w (.hold a)=if rows d then [a.desc] else [] := by
      have hok : (hold cfg w a).io.status=.ok := hf.status
      have hidx : (hold cfg w a).io.index=d := hf.index
      show (if _ then _ else _)=_
      rw [hok,hidx]
      simp
    -- the entries of the ls keep their descriptors
    have hold : ∀ k∈flat cfg.ip4ReassDatagrams (among rows fs),((step cfg w (.hold a)).frag k).desc=(w.frag k).desc := by
      intro k hk
      obtain ⟨j,hj,hkj⟩ := mem_flat.1 hk
      have hkj : k∈fs j := by
        unfold among at hkj
        split_ifs at hkj
        · exact hkj
        · cases hkj
      have hu := (h.frags.kept.used_of_mem hj hkj).2
      have hne : k≠fi := by
        rintro rfl
        rw [show (Store.mk w mem).work.frag k=w.frag k from rfl,hf.free] at hu
        cases hu
      obtain ⟨n,hn⟩ := hf.others k hne
      rw [hn]
    obtain ⟨n,he⟩ := hf.entry
    rw [hg,show takes cfg rows w (.hold a)=[] from rfl,append_nil,among_update]
    cases hr : rows d with
    | false =>
      rw [if_neg nofun,if_neg nofun,among_off hr,append_nil,map_congr_left hold]
    | true =>
      have hls : among rows fs d=pre++post := (if_pos hr).trans hf.split
      have hpr : (pre++fi::post).Perm (fi::among rows fs d) := by
        rw [hls]
        exact perm_middle
      rw [if_pos rfl,if_pos rfl]
      refine ((flat_insert hd hpr).map _).trans ?_
      rw [map_cons,he,map_congr_left hold]
      exact (perm_append_singleton _ _).symm
  | @popped d f rest hc hp =>
    subst hc
    have hd := hp.row_lt
    have ht : takes cfg rows w .reclaim=if rows d then [(w.frag f).desc] else [] := by
      have hok : (reclaim cfg w).io.status=.ok := hp.status
      have hidx : (reclaim cfg w).io.index=d := hp.index
      have hds : (reclaim cfg w).io.desc=(w.frag f).desc := hp.desc
      show (if _ then _ else _)=_
      rw [hok,hidx,hds]
      simp
    have hold : (fun i => ((step cfg w .reclaim).frag i).desc)=fun i => (w.frag i).desc := by
      funext i
      rw [hp.frag]
      by_cases hi : i=f
      · rw [hi,update_self]
        rfl
      · rw [update_of_ne hi]
    rw [ht,show gives cfg rows w .reclaim=[] from rfl,append_nil,among_update,hold]
    cases hr : rows d with
    | false =>
      rw [if_neg nofun,if_neg nofun,among_off hr,append_nil]
    | true =>
      have hls : among rows fs d=f::rest := (if_pos hr).trans hp.list
      rw [if_pos rfl,if_pos rfl]
      exact (perm_append_singleton _ _).trans ((flat_remove hd (.of_eq hls)).map fun i => (w.frag i).desc).symm

theorem Change.bufId (hc : Change cfg w mem fs hs c u fs' hs') (d : ℕ) (hu : (w.row d).state≠.free) :
    (u.row d).bufId=(w.row d).bufId := by
  cases hc with
  | alike ha hio =>
    obtain ⟨x,hx⟩ := ha.rows d
    rw [hx]
    rfl
  | @shut ds hs hi hio =>
    by_cases hd : d∈ds
    · obtain ⟨st,-,hrw⟩ := hs.shut d hd
      rw [hrw]
      rfl
    · rw [hs.rows d hd]
  | @filed a v hl k fi pre post m hc was named seat agrees len hf =>
    by_cases hd : d=k
    · subst hd
      rcases was with ⟨-,hfr⟩|⟨-,hv⟩
      · exact absurd hfr hu
      obtain ⟨fh,hh,hrw,-⟩ := hf.row
      obtain ⟨st,x,hr⟩ := ({(v.row d).learned a fi with fragHead := fh,holeHead := hh} : Datagram).settled_rest
      rw [hrw,hr,hv]
      rfl
    · rw [hf.rows d hd]
  | @popped k f rest hc hp =>
    rw [hp.row]
    by_cases hd : d=k
    · rw [hd,update_self]
      unfold Datagram.popped
      split_ifs <;> rfl
    · rw [update_of_ne hd]

/-- A call that is not a `hold` opens no row. -/
theorem Change.done (h : Ok cfg ⟨w,mem⟩ fs hs) (hc : Change cfg w mem fs hs c u fs' hs') (hh : ∀ a,c≠.hold a)
    (hd : w.Done d) : u.Done d := by
  cases hc with
  | alike ha hio =>
    unfold Work.Done
    rw [ha.state d]
    exact hd
  | @shut ds hs hi gone hio =>
    by_cases hin : d∈ds
    · exact .inr (gone hh d hin)
    unfold Work.Done
    rw [hs.rows d hin]
    exact hd
  | filed hc was named seat agrees len hf => exact (hh _ hc).elim
  | @popped k f rest hc hp =>
    obtain ⟨-,-,hst,hne⟩ := hp.rows h
    by_cases hk : d=k
    · unfold Work.Done
      rw [hk,hst]
      split_ifs
      · exact .inl rfl
      · exact .inr rfl
    · unfold Work.Done
      rw [hne d hk]
      exact hd

end Stock

section Runs

variable {cfg} {w u : Work} {mem : Memory} {fs hs : ℕ → List ℕ} {d : ℕ}

/-- The tables are in order, whatever lies behind them. -/
def InOrder (cfg : Config) (w : Work) : Prop := w.ready ∧ ∃ mem fs hs,Ok cfg ⟨w,mem⟩ fs hs

theorem InOrder.step (h : InOrder cfg w) (c : Call) : InOrder cfg (step cfg w c) := by
  obtain ⟨hr,mem,fs,hs,hok⟩ := h
  obtain ⟨fs',hs',hc⟩ := step_change hok c
  exact ⟨hc.ready.trans hr,_,fs',hs',hc.ok hok⟩

theorem inOrder_clear (cfg : Config) (w : Work) : InOrder cfg (clear w) := ⟨rfl,fun _ _ => 0,_,_,ok_clear cfg w _⟩

theorem run_inOrder (cfg : Config) (w : Work) (cs : List Call) : InOrder cfg (run (step cfg) (clear w) cs) :=
  run_always (fun _ c h => h.step c) (inOrder_clear cfg w)

/-- What was given to rows is what they hold and what they handed back. -/
theorem run_stock (h : InOrder cfg w) (rows : ℕ → Bool) (cs : List Call) :
    ((run (step cfg) w cs).stock cfg rows++outputs (step cfg) (takes cfg rows) w cs).Perm
      (w.stock cfg rows++outputs (step cfg) (gives cfg rows) w cs) := by
  refine run_inventory (fun _ c h => h.step c) (Work.stock cfg rows) (fun w c h => ?_) h cs
  obtain ⟨-,mem,fs,hs,hok⟩ := h
  obtain ⟨fs',hs',hc⟩ := step_change hok c
  exact hc.stock hok rows

theorem stock_clear (cfg : Config) (w : Work) (rows : ℕ → Bool) : (clear w).stock cfg rows=[] := by
  rw [(ok_clear cfg w fun _ _ => 0).stock_eq]
  have hn : flat cfg.ip4ReassDatagrams (among rows fun _ => [])=[] :=
    flatMap_eq_nil_iff.2 fun d _ => by unfold among; split_ifs <;> rfl
  rw [hn]
  rfl

/-- A fragment is held by a row of its datagram that gathers, or by one that was free. -/
theorem hold_row (h : Ok cfg ⟨w,mem⟩ fs hs) {a : HoldArgs} (hok : (hold cfg w a).io.status=.ok) :
    (w.row (hold cfg w a).io.index).state=.free ∨
      (w.row (hold cfg w a).io.index).state=.holding ∧ (w.row (hold cfg w a).io.index).named a.hdr := by
  obtain ⟨fs',hs',hc⟩ := (hold_change h).1
  cases hc with
  | alike ha hio => exact absurd hok hio
  | shut hs hits gone hio => exact absurd hok hio
  | filed hc was named seat agrees len hf =>
    cases hc
    rw [hf.index]
    rcases was with ⟨-,hfr⟩|⟨-,hv⟩
    · exact .inl hfr
    · exact .inr ⟨hv ▸ seat.state,hv ▸ named⟩
  | popped hc hp => cases hc

theorem release_done (h : InOrder cfg w) (hd : d < cfg.ip4ReassDatagrams) : (release cfg w d).Done d := by
  obtain ⟨hr,mem,fs,hs,hok⟩ := h
  unfold release
  rw [if_neg (by simp [hr,hd])]
  split
  · next hst => exact .inl hst
  · next hst => exact .inr hst
  · next hf _ =>
    exact .inr (flush_shut (hok.alike (.of_io w {w.io with status := .err,index := none8,state := .free})) hd hf).2

theorem tick_done (h : InOrder cfg w) {now : BitVec 32} (ht : (tick cfg w now).io.status=.ok) :
    (tick cfg w now).Done (tick cfg w now).io.index := by
  obtain ⟨hr,mem,fs,hs,hok⟩ := h
  unfold tick at ht ⊢
  rw [if_neg (by simp [hr])] at ht ⊢
  split at ht
  · cases ht
  next i hi =>
  obtain ⟨hp,hlt,-⟩ := firstIndex_some.1 hi
  rw [Bool.and_eq_true] at hp
  have hu : (w.row i).state≠.free := by
    intro hf
    rw [hf] at hp
    exact absurd hp.1 (by decide)
  exact .inr (flush_shut
    (hok.alike (.of_io w {w.io with status := .err,index := none8,state := .free,src := 0,fragZero := false})) hlt hu).2

variable (h : InOrder cfg w) (hdone : ∀ d < cfg.ip4ReassDatagrams,w.Done d)
include h hdone

/-- Once every row is done with, one `reclaim` hands a descriptor back as long as there is one. -/
theorem reclaim_drains : (reclaim cfg w).io.status=(if 0<w.held then .ok else .busy) ∧ (reclaim cfg w).held=w.held-1 ∧
      ∀ d < cfg.ip4ReassDatagrams,(reclaim cfg w).Done d := by
  obtain ⟨hr,mem,fs,hs,hok⟩ := h
  obtain ⟨fs',hc⟩ := reclaim_change hok
  have hl : w.held=(flat cfg.ip4ReassDatagrams fs).length := hok.frags.kept.count_eq
  have hk : ∀ d < cfg.ip4ReassDatagrams,(reclaim cfg w).Done d := fun d hd => hc.done hok (fun a => nofun) (hdone d hd)
  rcases reclaim_cases hok hr with ⟨d,f,rest,hp⟩|⟨ha,hb,hno⟩
  · have hps : 0<w.held := by
      rw [hl,length_pos_iff_exists_mem]
      exact ⟨f,mem_flat.2 ⟨d,hp.row_lt,by rw [hp.list]; exact mem_cons_self⟩⟩
    rw [if_pos hps]
    exact ⟨hp.status,hp.held,hk⟩
  -- no row waits, so all are free and the table is empty
  have hn : flat cfg.ip4ReassDatagrams fs=[] := by
    refine flatMap_eq_nil_iff.2 fun d hd => ?_
    have hd := mem_range.1 hd
    refine hok.frags.free d hd ?_
    rw [(hdone d hd).resolve_right (hno d hd)]
    rfl
  have hz : w.held=0 := by
    rw [hl,hn]
    rfl
  rw [hz]
  exact ⟨hb,ha.held.trans hz,hk⟩

theorem reclaims_drain (n : ℕ) :
    (reclaim cfg (run (step cfg) w (List.replicate n .reclaim))).io.status=(if n<w.held then .ok else .busy) ∧
      (run (step cfg) w (List.replicate n .reclaim)).held=w.held-n := by
  induction n generalizing w with
  | zero => exact ⟨(reclaim_drains h hdone).1,rfl⟩
  | succ n ih =>
    obtain ⟨-,hh,hk⟩ := reclaim_drains h hdone
    obtain ⟨hst,hn⟩ := ih (h.step .reclaim) hk
    have hh : (step cfg w .reclaim).held=w.held-1 := hh
    rw [hh] at hst hn
    refine ⟨hst.trans ?_,hn.trans (by omega)⟩
    by_cases hlt : n<w.held-1
    · rw [if_pos hlt,if_pos (by omega)]
    · rw [if_neg hlt,if_neg (by omega)]

omit h hdone in
/-- A call of `reclaim` gives nothing. -/
theorem outputs_gives_reclaim (rows : ℕ → Bool) (w : Work) (n : ℕ) :
    outputs (step cfg) (gives cfg rows) w (List.replicate n .reclaim)=[] := by
  induction n generalizing w with
  | zero => rfl
  | succ n ih => exact ih _

theorem reclaims_descs :
    (outputs (step cfg) (takes cfg fun _ => true) w (List.replicate w.held .reclaim)).Perm (w.descs cfg) := by
  have hst := run_stock h (fun _ => true) (replicate w.held .reclaim)
  have hh := (reclaims_drain h hdone w.held).2
  have hen : InOrder cfg (run (step cfg) w (replicate w.held .reclaim)) := run_always (fun _ c h => h.step c) h
  obtain ⟨-,mem,fs,hs,hok⟩ := h
  obtain ⟨-,mem',fs',hs',hok'⟩ := hen
  have hl := hok'.frags.kept.count_eq
  have he : (run (step cfg) w (replicate w.held .reclaim)).stock cfg (fun _ => true)=[] := by
    rw [hok'.stock_eq,show among (fun _ => true) fs'=fs' from rfl,
      eq_nil_of_length_eq_zero (hl.symm.trans (hh.trans (Nat.sub_self _)))]
    rfl
  rw [he,outputs_gives_reclaim,append_nil] at hst
  exact hst.trans hok.stock_all

omit h hdone

/-- Over every run the descriptors of holds that reported OK are those in the table and those handed back. A free row
has handed back all it was given, a row in use keeps its identifier, and `reclaim` hands back every descriptor of rows
done with once. -/
theorem run_descriptors (cfg : Config) (w : Work) (cs : List Call) :
    let u := run (step cfg) (clear w) cs
    let given := fun rows => outputs (step cfg) (gives cfg rows) (clear w) cs
    let back := fun rows => outputs (step cfg) (takes cfg rows) (clear w) cs
    (given fun _ => true).Perm (u.descs cfg++back fun _ => true) ∧
      u.held=(range cfg.ip4ReassFrags).countP (fun i => (u.frag i).state != .free) ∧
      (∀ a,(hold cfg u a).io.status=.ok → (u.row (hold cfg u a).io.index).state=.free ∨
        (u.row (hold cfg u a).io.index).state=.holding ∧ (u.row (hold cfg u a).io.index).named a.hdr=true) ∧
      (∀ d,(u.row d).state=.free → (given fun k => k==d).Perm (back fun k => k==d)) ∧
      (∀ c d,(u.row d).state≠.free → ((step cfg u c).row d).bufId=(u.row d).bufId) ∧
      (∀ d < cfg.ip4ReassDatagrams,(release cfg u d).Done d) ∧
      (∀ nowMs,(tick cfg u nowMs).io.status=.ok → (tick cfg u nowMs).Done (tick cfg u nowMs).io.index) ∧
      (∀ c d,(∀ a,c≠.hold a) → u.Done d → (step cfg u c).Done d) ∧
      ((∀ d < cfg.ip4ReassDatagrams,u.Done d) →
        (outputs (step cfg) (takes cfg fun _ => true) u (replicate u.held .reclaim)).Perm (u.descs cfg) ∧
        ∀ n,(reclaim cfg (run (step cfg) u (replicate n .reclaim))).io.status=if n<u.held then .ok else .busy) := by
  have horder := run_inOrder cfg w cs
  have hstock : ∀ rows,_ := fun rows => run_stock (inOrder_clear cfg w) rows cs
  simp only [stock_clear,nil_append] at hstock
  obtain ⟨-,mem,fs,hs,hok⟩ := id horder
  refine ⟨?_,hok.frags.kept.count_eq_countP,fun a => hold_row hok,fun d hfree => ?_,fun c d hu => ?_,
    fun d hd => release_done horder hd,fun nowMs => tick_done horder,fun c d hhold hd => ?_,fun hdone =>
    ⟨reclaims_descs horder hdone,fun n => (reclaims_drain horder hdone n).1⟩⟩
  · exact (hstock fun _ => true).symm.trans (hok.stock_all.append_right _)
  · have hrow := hstock fun k => k==d
    rw [Work.stock_free hfree,nil_append] at hrow
    exact hrow.symm
  · obtain ⟨fs',hs',hc⟩ := step_change hok c
    exact hc.bufId d hu
  · obtain ⟨fs',hs',hc⟩ := step_change hok c
    exact hc.done hok hhold hd

end Runs

end Descriptors

section Lengths

open StepRun List Function Ip4

/-- No header offered is longer than one that every last fragment leaves room for. -/
def Call.leavesRoom (longest : ℕ) : Call → Bool
  | .hold a => decide (Ip4.hdrLen a.hdr≤longest ∧
      (Ip4.mf a.hdr=false → Ip4.fragOffsetBytes a.hdr+dataLen a.hdr+longest≤65535))
  | _ => true

/-- A datagram reported complete fits its Total Length under the header of its first fragment. -/
def FitsLength (cfg : Config) (w : Work) (c : Call) : Prop :=
  let u := step cfg w c
  (∃ a,c=.hold a) → u.io.status=.ok → u.io.complete → (u.frag (u.row u.io.index).firstFrag).hdrLen+u.io.totalLen≤65535

/-- No entry has a longer header, and every row leaves room for it. -/
structure Roomy (longest : ℕ) (w : Work) : Prop where
  entry : ∀ i,(w.frag i).hdrLen≤longest
  row : ∀ d,(w.row d).totalLen+longest≤65535

variable {cfg : Config} {w u : Work} {mem : Memory} {fs hs fs' hs' : ℕ → List ℕ} {c : Call} {longest : ℕ}

/-- A call keeps the room, and what it reports complete fits. -/
theorem Change.roomy (h : Ok cfg ⟨w,mem⟩ fs hs) (hc : Change cfg w mem fs hs c u fs' hs') (hr : Roomy longest w)
    (hro : c.leavesRoom longest) : Roomy longest u ∧ ((∃ a,c=.hold a) → u.io.status=.ok → u.io.complete →
      (u.frag (u.row u.io.index).firstFrag).hdrLen+u.io.totalLen≤65535) := by
  cases hc with
  | alike ha hio =>
    refine ⟨⟨fun i => ha.frag ▸ hr.entry i,fun d => ?_⟩,fun ⟨a,he⟩ hok => ?_⟩
    · obtain ⟨x,hx⟩ := ha.rows d
      rw [hx]
      exact hr.row d
    · subst he
      exact absurd hok hio
  | @shut ds hsh hits gone hio =>
    refine ⟨⟨fun i => hsh.frag ▸ hr.entry i,fun d => ?_⟩,fun ⟨a,he⟩ hok => ?_⟩
    · by_cases hd : d∈ds
      · obtain ⟨st,-,hx⟩ := hsh.shut d hd
        rw [hx]
        exact hr.row d
      · rw [hsh.rows d hd]
        exact hr.row d
    · subst he
      exact absurd hok hio
  | @filed a v hl d fi pre post m he was named seat agrees len hf =>
    subst he
    obtain ⟨hln,hls⟩ := of_decide_eq_true hro
    have hb : (v.row d).totalLen+longest≤65535 := by
      rcases was with ⟨-,hfr⟩|⟨-,hrw⟩
      · have hnl : fs d=[] := h.frags.free d seat.row_lt (by simp [hfr])
        have hzero : (v.row d).totalLen=0 := by
          by_contra hne
          obtain ⟨p,hp,-⟩ := seat.gathers.last.1 hne
          rw [hnl] at hp
          cases hp
        have hw := hr.row d
        omega
      · rw [hrw]
        exact hr.row d
    have hlr : ((v.row d).learned a fi).totalLen+longest≤65535 := by
      unfold Datagram.learned
      cases hmf : Ip4.mf a.hdr with
      | true => exact hb
      | false => exact hls hmf
    have hrm : Roomy longest u := by
      refine ⟨fun i => ?_,fun k => ?_⟩
      · by_cases hi : i=fi
        · obtain ⟨n,hn⟩ := hf.entry
          rw [hi,hn]
          exact hln
        · obtain ⟨n,hn⟩ := hf.others i hi
          rw [hn]
          exact hr.entry i
      · by_cases hk : k=d
        · obtain ⟨fh,hh,hrw,-⟩ := hf.row
          obtain ⟨st,x,hrs⟩ := ({(v.row d).learned a fi with fragHead := fh,holeHead := hh} : Datagram).settled_rest
          rw [hk,hrw,hrs]
          exact hlr
        · rw [hf.rows k hk]
          exact hr.row k
    refine ⟨hrm,fun _ _ _ => ?_⟩
    have hhdr := hrm.entry (u.row u.io.index).firstFrag
    rw [hf.totalLen]
    omega
  | @popped d f rest he hp =>
    refine ⟨⟨fun i => ?_,fun k => ?_⟩,fun ⟨a,ha⟩ => by rw [he] at ha; cases ha⟩
    · rw [hp.frag]
      by_cases hi : i=f
      · rw [hi,update_self]
        exact hr.entry f
      · rw [update_of_ne hi]
        exact hr.entry i
    · rw [hp.row]
      have hk := hr.row k
      by_cases hkd : k=d
      · rw [hkd] at hk
        rw [hkd,update_self]
        unfold Datagram.popped
        split_ifs
        · exact (Nat.add_le_add_right (Nat.zero_le _) _).trans hk
        · exact hk
      · rwa [update_of_ne hkd]

theorem step_roomy {w : Work} {c : Call} (h : ∃ mem fs hs,Ok cfg ⟨w,mem⟩ fs hs ∧ Roomy longest w)
    (hc : c.leavesRoom longest) :
    (∃ mem fs hs,Ok cfg ⟨step cfg w c,mem⟩ fs hs ∧ Roomy longest (step cfg w c)) ∧ FitsLength cfg w c := by
  obtain ⟨mem,fs,hs,hok,hr⟩ := h
  obtain ⟨fs',hs',hch⟩ := step_change hok c
  obtain ⟨hrm,hf⟩ := hch.roomy hok hr hc
  exact ⟨⟨_,_,_,hch.ok hok,hrm⟩,hf⟩

/-- Where every last fragment leaves room for the longest header, a complete datagram fits its Total Length. -/
theorem run_fitsLength (cfg : Config) (w : Work) (cs : List Call) (longest : ℕ) (hlongest : longest≤60)
    (hcs : Along (step cfg) (fun _ c => c.leavesRoom longest=true) (clear w) cs) :
    Along (step cfg) (FitsLength cfg) (clear w) cs := by
  have hroom : Roomy longest (clear w) := by
    refine ⟨fun _ => Nat.zero_le _,fun _ => ?_⟩
    exact (Nat.zero_add longest).le.trans (hlongest.trans (by decide))
  exact Along.imp (fun v c hv hc => (step_roomy hv hc).1) (fun v c hv hc => (step_roomy hv hc).2)
    ⟨fun _ => .zero,_,_,ok_clear cfg w _,hroom⟩ hcs

/-- The unit before `clear`. -/
def unmarked : Work :=
  ⟨false,0,fun _ => ⟨0,0,0,0,0,0,0,0,0,0,.free⟩,fun _ => ⟨0,0,0,0,0,.free⟩,fun _ => ⟨0,0,0,.free⟩,
    ⟨.err,false,0,0,.free,0,0,0,0,0,false⟩⟩

/-- The first fragment of a datagram under a header of sixty octets. -/
def longFirst : HoldArgs :=
  ⟨.ofList ([0x4F,0,0xFF,0xFC,0,1,0x20,0,64,17,0x3C,0xED,10,0,0,1,10,0,0,2]++replicate 40 0),0,65535,0⟩

/-- The last one, whose own twenty octets and its end make 65535. -/
def shortLast : HoldArgs := ⟨.ofList [0x45,0,0,0x3F,0,1,0x1F,0xF8,64,17,0x46,0xB3,10,0,0,1,10,0,0,2],1,63,0⟩

/-- A first fragment without options in front of it. -/
def plainFirst : HoldArgs := ⟨.ofList [0x45,0,0xFF,0xD4,0,1,0x20,0,64,17,0x47,0x15,10,0,0,1,10,0,0,2],0,65535,0⟩

/-- A datagram without options of 65535 octets is reported complete. -/
theorem run_fitsLength_plain :
    let w := run (step .shipped) (clear unmarked) [.hold plainFirst,.hold shortLast]
    (w.io.status=.ok ∧ w.io.complete=true) ∧ (w.frag (w.row w.io.index).firstFrag).hdrLen=20 ∧ w.io.totalLen=65515 ∧
      Along (step .shipped) (FitsLength .shipped) (clear unmarked) [.hold plainFirst,.hold shortLast] :=
  ⟨by decide +kernel,by decide +kernel,by decide +kernel,run_fitsLength .shipped unmarked _ 20 (by decide) (by decide +kernel)⟩

/-- The two make a datagram of 65575 octets, reported complete. -/
theorem longFirst_overflows :
    let w := hold .shipped (clear unmarked) longFirst
    let u := hold .shipped w shortLast
    (u.io.status=.ok ∧ u.io.complete=true) ∧ (u.frag (u.row u.io.index).firstFrag).hdrLen=60 ∧ u.io.totalLen=65515 ∧
      ¬FitsLength .shipped w (.hold shortLast) := by
  refine ⟨by decide +kernel,by decide +kernel,by decide +kernel,fun h => ?_⟩
  exact absurd (h ⟨_,rfl⟩ (by decide +kernel) (by decide +kernel)) (by decide +kernel)

end Lengths

end IdemIp.Ip4Reass
