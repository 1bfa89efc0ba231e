import IdemIp.Nd6Runs

/-!
# Routers and destinations of a neighbor that goes

When a neighbor is deleted or is no router any more, its router and the destinations
through it have to go. The router is found by the index it records, and one listed
before its neighbor was known records none.
-/

namespace IdemIp.Nd6

open IndexChain StepRun Option Bool

variable (cfg : Config)

/-- The neighbor is there, under its address, and a router still if it was one. -/
def Keeps (w w' : Work) (i : ℕ) : Prop :=
  (w'.neighbor i).used ∧ (w'.neighbor i).addr=(w.neighbor i).addr ∧
    ((w.neighbor i).isRouter → (w'.neighbor i).isRouter)

/-- The neighbor was deleted, or it is no router any more. -/
def Lost (w w' : Work) (i : ℕ) : Prop :=
  ¬((w'.neighbor i).used ∧ addrEq (w.neighbor i).addr (w'.neighbor i).addr) ∨
    ((w.neighbor i).isRouter ∧ (w'.neighbor i).isRouter=false)

/-- No router is listed under the address of the neighbor, and no destination goes through it. -/
def Purged (w w' : Work) (i : ℕ) : Prop :=
  (∀ r < cfg.nd6Routers,(w'.router r).used → addrEq (w.neighbor i).addr (w'.router r).addr=false) ∧
    ∀ d < cfg.nd6Destinations,(w'.destination d).used → (w'.destination d).neighbor≠i

/-- A call leaves no router and no destination behind of a neighbor that it loses. -/
def Cleansed (w : Work) (c : Call) : Prop :=
  ∀ i < cfg.nd6Neighbors,(w.neighbor i).used → Lost w (step cfg w c) i → Purged cfg w (step cfg w c) i

/-- The call creates a neighbor for an address under which a router is listed. -/
def orphans (w : Work) : Call → Bool
  | .neighborSet a => a.addr.any fun addr =>
      w.ctx.ready && (neighborLookup cfg w addr).isNone && (firstIndex cfg.nd6Neighbors fun i => !(w.neighbor i).used).isSome &&
        (routerLookup cfg w addr).isSome
  | _ => false

/-- A router listed under the address of a neighbor records it. -/
def Pointed (w : Work) : Prop :=
  ∀ r < cfg.nd6Routers,(w.router r).used → ∀ i < cfg.nd6Neighbors,(w.neighbor i).used →
    addrEq (w.neighbor i).addr (w.router r).addr → (w.router r).neighbor=i

/-- Every neighbor is kept, or nothing of it is left behind. -/
def Cut (w u : Work) : Prop :=
  Pointed cfg u ∧ ∀ i < cfg.nd6Neighbors,(w.neighbor i).used → Keeps w u i ∨ Purged cfg w u i

variable {cfg} {w u v : Work}

variable {i r : ℕ} {c : Call} {k : Kind} {addr : Octets} {lists : ℕ → List ℕ}

theorem Keeps.not_lost (h : Keeps w u i) : ¬Lost w u i := by
  obtain ⟨hu,ha,hf⟩ := h
  rintro (hg | ⟨hw,hn⟩)
  · exact hg ⟨hu,by rw [ha]; exact addrEq_iff.2 fun _ _ => rfl⟩
  · rw [hf hw] at hn
    cases hn

theorem Cut.cleansed (h : Cut cfg w (step cfg w c)) : Cleansed cfg w c :=
  fun i hi hu hl => (h.2 i hi hu).resolve_left fun hk => hk.not_lost hl

theorem Pointed.fewer (h : Pointed cfg w) (hr : ∀ r,(u.router r).used → u.router r=w.router r)
    (hn : ∀ i,(u.neighbor i).used → (w.neighbor i).used ∧ (u.neighbor i).addr=(w.neighbor i).addr) : Pointed cfg u := by
  intro r hrl hru i hi hiu heq
  have hs := hr r hru
  obtain ⟨hwu,ha⟩ := hn i hiu
  rw [hs] at hru heq ⊢
  rw [ha] at heq
  exact h r hrl hru i hi hwu heq

theorem Purged.fewer (h : Purged cfg w u i) (hr : ∀ r,(v.router r).used → v.router r=u.router r)
    (hd : ∀ d,(v.destination d).used → v.destination d=u.destination d) : Purged cfg w v i := by
  refine ⟨fun r hrl hu => ?_,fun d hdl hu => ?_⟩
  · have hs := hr r hu
    rw [hs] at hu ⊢
    exact h.1 r hrl hu
  · have hs := hd d hu
    rw [hs] at hu ⊢
    exact h.2 d hdl hu

theorem Keeps.trans (h : Keeps w u i) (h' : Keeps u v i) : Keeps w v i :=
  ⟨h'.1,h'.2.1.trans h.2.1,fun hf => h'.2.2 (h.2.2 hf)⟩

/-- Nothing is taken from the neighbors, and rows of the other tables only go. -/
theorem Cut.fewer (h : Cut cfg w u) (hr : ∀ r,(v.router r).used → v.router r=u.router r)
    (hd : ∀ d,(v.destination d).used → v.destination d=u.destination d)
    (hus : ∀ i,(v.neighbor i).used=(u.neighbor i).used) (ha : ∀ i,(v.neighbor i).addr=(u.neighbor i).addr)
    (hf : ∀ i,(u.neighbor i).isRouter → (v.neighbor i).isRouter) : Cut cfg w v := by
  refine ⟨h.1.fewer hr fun i hi => ⟨(hus i).symm.trans hi,ha i⟩,fun i hi hu => ?_⟩
  rcases h.2 i hi hu with hk|hp
  · exact .inl (hk.trans ⟨(hus i).trans hk.1,ha i,hf i⟩)
  · exact .inr (hp.fewer hr hd)

theorem Move.cut (hm : Move cfg k u v) (hk : k.cuts) (h : Cut cfg w u) : Cut cfg w v := by
  cases hm with
  | quiet hq =>
    exact h.fewer (fun r _ => by rw [hq.router]) (fun d _ => by rw [hq.destination]) hq.used hq.addr hq.flag
  | @dropNeighbor _ j hj hus hqueue hun =>
    have hs := setNeighbor_self u j {Neighbor.zero with pendingHead := none8}
    have ho : ∀ k,k≠j → _ := fun k hk => setNeighbor_of_ne u {Neighbor.zero with pendingHead := none8} hk
    refine ⟨h.1.fewer (fun _ _ => rfl) fun i hi => ?_,fun i hi hu => ?_⟩
    · by_cases hij : i=j
      · change ((u.setNeighbor j {Neighbor.zero with pendingHead := none8}).neighbor i).used=true at hi
        rw [hij,hs] at hi
        cases hi
      · change ((u.setNeighbor j {Neighbor.zero with pendingHead := none8}).neighbor i).used=true at hi
        rw [ho i hij] at hi
        exact ⟨hi,by show ((u.setNeighbor j _).neighbor i).addr=_; rw [ho i hij]⟩
    · rcases h.2 i hi hu with hk|hp
      · by_cases hij : i=j
        · -- a router under the address of the neighbor would record it
          refine .inr ⟨fun r hr hru => ?_,fun d hd hdu => hij ▸ hun.2 d hd hdu⟩
          rw [eq_false_iff]
          intro heq
          rw [←hk.2.1] at heq
          exact hun.1 r hr hru ((h.1 r hr hru i hi hk.1 heq).trans hij)
        · refine .inl ?_
          show ((u.setNeighbor j _).neighbor i).used ∧ ((u.setNeighbor j _).neighbor i).addr=_ ∧
            (_ → ((u.setNeighbor j _).neighbor i).isRouter)
          rw [ho i hij]
          exact hk
      · exact .inr hp
  | @dropDestination _ j hj hus =>
    exact h.fewer (fun _ _ => rfl) (dropDestination_fewer).destination (fun _ => rfl) (fun _ => rfl) fun _ hf => hf
  | dropPrefix hj hus => exact h.fewer (fun _ _ => rfl) (fun _ _ => rfl) (fun _ => rfl) (fun _ => rfl) fun _ hf => hf
  | @dropRouter _ j hj hus =>
    refine h.fewer (fun r hr => ?_) (fun _ _ => rfl) (fun _ => rfl) (fun _ => rfl) fun _ hf => hf
    have hne : r≠j := by
      rintro rfl
      change ((u.setRouter r _).router r).used=true at hr
      rw [setRouter_self] at hr
      cases hr
    exact setRouter_of_ne u _ hne
  | addNeighbor => cases hk
  | demote => cases hk
  | addDestination => cases hk
  | setDestination => cases hk
  | addPrefix => cases hk
  | addRouter => cases hk
  | setRouter => cases hk

theorem Moves.cut (hm : Moves cfg Kind.cuts u v) (h : Cut cfg w u) : Cut cfg w v :=
  hm.keeps (fun _ _ _ hk hmv hc => hmv.cut hk hc) h

theorem Apart.cut (ha : Apart u v) (h : Cut cfg w u) : Cut cfg w v :=
  h.fewer (fun r _ => by rw [ha.router]) (fun d _ => by rw [ha.destination]) ha.used ha.addr fun i hf => (ha.flag i).trans hf

theorem Pointed.cut (h : Pointed cfg w) : Cut cfg w w := ⟨h,fun _ _ hu => .inl ⟨hu,rfl,fun hf => hf⟩⟩

/-- Nothing is taken from a neighbor in use. -/
def Steady (w u : Work) : Prop := ∀ i,(w.neighbor i).used → Keeps w u i

theorem Steady.cut (h : Steady w u) (hp : Pointed cfg u) : Cut cfg w u := ⟨hp,fun i _ hu => .inl (h i hu)⟩

theorem Move.steady (hm : Move cfg k u v) (hk : k.calm) : Steady u v := by
  have hs : ∀ {v},v.neighbor=u.neighbor → Steady u v := fun hn i hu => by
    unfold Keeps
    rw [hn]
    exact ⟨hu,rfl,fun hf => hf⟩
  cases hm with
  | quiet hq => exact fun i hu => ⟨(hq.used i).trans hu,hq.addr i,hq.flag i⟩
  | @addNeighbor _ j n hj hfr hnew hused hhead =>
    intro i hu
    have hne : i≠j := by
      rintro rfl
      rw [hfr] at hu
      cases hu
    show ((u.setNeighbor j n).neighbor i).used ∧ ((u.setNeighbor j n).neighbor i).addr=_ ∧
      (_ → ((u.setNeighbor j n).neighbor i).isRouter)
    rw [setNeighbor_of_ne u n hne]
    exact ⟨hu,rfl,fun hf => hf⟩
  | dropNeighbor => cases hk
  | demote => cases hk
  | addDestination => exact hs rfl
  | setDestination => exact hs rfl
  | dropDestination => exact hs rfl
  | addPrefix => exact hs rfl
  | dropPrefix => exact hs rfl
  | addRouter => exact hs rfl
  | setRouter => exact hs rfl
  | dropRouter => exact hs rfl

theorem Moves.steady (hm : Moves cfg Kind.calm w u) : Steady w u :=
  hm.keeps (fun _ _ _ hk hmv hs i hu => (hs i hu).trans (hmv.steady hk i (hs i hu).1)) fun _ hu => ⟨hu,rfl,fun hf => hf⟩

theorem Move.pointed (hm : Move cfg k u v) (hk : k.mild) (h : Pointed cfg u) : Pointed cfg v := by
  have hs : ∀ {v},v.router=u.router → v.neighbor=u.neighbor → Pointed cfg v := fun hr hn =>
    h.fewer (fun r _ => by rw [hr]) fun i hi => by
      rw [hn] at hi ⊢
      exact ⟨hi,rfl⟩
  cases hm with
  | quiet hq => exact h.fewer (fun r _ => by rw [hq.router]) fun i hi => ⟨(hq.used i).symm.trans hi,hq.addr i⟩
  | addDestination => exact hs rfl rfl
  | setDestination => exact hs rfl rfl
  | dropDestination => exact hs rfl rfl
  | addPrefix => exact hs rfl rfl
  | dropPrefix => exact hs rfl rfl
  | addNeighbor => cases hk
  | dropNeighbor => cases hk
  | demote => cases hk
  | addRouter => cases hk
  | setRouter => cases hk
  | dropRouter => cases hk

theorem Moves.pointed (hm : Moves cfg Kind.mild w u) (h : Pointed cfg w) : Pointed cfg u :=
  hm.keeps (fun _ _ _ hk hmv hp => hmv.pointed hk hp) h

theorem Moves.mild_cut (hm : Moves cfg Kind.mild w u) (h : Pointed cfg w) : Cut cfg w u := by
  have hc : Moves cfg Kind.calm w u := hm.mono fun k hk => by
    cases k with
    | dropNeighbor => cases hk
    | demote => cases hk
    | _ => rfl
  exact hc.steady.cut (hm.pointed h)

theorem Quiet.cut (hq : Quiet u v) (h : Cut cfg w u) : Cut cfg w v := (Move.quiet hq).cut rfl h

/-- A neighbor recorded for an address: routers under other addresses record what they did. -/
theorem pointed_record {ni : Option ℕ} (h : Pointed cfg u) (hrt : v.router=u.router) (hh : Holds cfg v addr ni)
    (hn : ∀ j < cfg.nd6Neighbors,(v.neighbor j).used →
      ni=some j ∨ ((u.neighbor j).used ∧ (v.neighbor j).addr=(u.neighbor j).addr)) (hr : r < cfg.nd6Routers)
    (hru : (v.router r).used) (hne : addrEq addr (v.router r).addr=false) {j : ℕ} (hj : j < cfg.nd6Neighbors)
    (hju : (v.neighbor j).used) (heq : addrEq (v.neighbor j).addr (v.router r).addr) : (v.router r).neighbor=j := by
  rcases hn j hj hju with hni|⟨hwu,ha⟩
  · obtain ⟨-,-,ho⟩ := hh j hni
    rw [addrEq_trans (addrEq_symm ho) heq] at hne
    cases hne
  rw [hrt] at hru heq ⊢
  rw [ha] at heq
  exact h r hr hru j hj hwu heq

theorem routerLookup_none (h : routerLookup cfg w addr=none) :
    ∀ r < cfg.nd6Routers,(w.router r).used → addrEq addr (w.router r).addr=false := by
  intro r hr hu
  have hf := firstIndex_none.1 h r hr
  rw [hu,Bool.true_and] at hf
  rw [eq_false_iff]
  intro heq
  rw [addrEq_symm heq] at hf
  cases hf

theorem routerLookup_some (h : routerLookup cfg w addr=some r) :
    r < cfg.nd6Routers ∧ (w.router r).used ∧ addrEq (w.router r).addr addr := by
  obtain ⟨hm,hlt,-⟩ := firstIndex_some.1 h
  rw [and_eq_true] at hm
  exact ⟨hlt,hm⟩

/-- A router that is listed again, or newly, records the neighbor of its address. -/
theorem pointed_list {ri ni : Option ℕ} {lifetimeS : BitVec 16} {t : Work} (ht : Tabled cfg v)
    (hri : routerLookup cfg v addr=ri) (hrw : routerRow cfg v addr ri=some (t,i)) (hh : Holds cfg v addr ni)
    (hnn : ni=none → ∀ j < cfg.nd6Neighbors,(v.neighbor j).used → addrEq (v.neighbor j).addr addr=false)
    (ho : ∀ r < cfg.nd6Routers,(v.router r).used → addrEq addr (v.router r).addr=false →
      ∀ j < cfg.nd6Neighbors,(v.neighbor j).used → addrEq (v.neighbor j).addr (v.router r).addr → (v.router r).neighbor=j) :
    Pointed cfg (startRouter t i ni lifetimeS) := by
  obtain ⟨-,hn,hs,ha,hnm⟩ := @listRouter_spec cfg v addr ri ni lifetimeS t i hh hri hrw
  intro r hr hru j hj hju heq
  rw [hn] at hju heq
  by_cases hri' : r=i
  · rw [hri',hnm]
    rw [hri'] at heq
    have how : addrEq (v.neighbor j).addr addr := addrEq_trans heq (addrEq_symm ha)
    cases hni : ni with
    | none =>
      have hno := hnn hni j hj hju
      rw [how] at hno
      cases hno
    | some k =>
      obtain ⟨hk,hku,hkd⟩ := hh k hni
      exact ht.distinct k hk j hj hku hju (addrEq_trans hkd (addrEq_symm how))
  rw [hs r hri'] at hru heq ⊢
  refine ho r hr hru ?_ j hj hju heq
  rw [eq_false_iff]
  intro had
  cases hl : ri with
  | none =>
    have hno := routerLookup_none (hri.trans hl) r hr hru
    rw [had] at hno
    cases hno
  | some k =>
    obtain ⟨hk,hku,hkd⟩ := routerLookup_some (hri.trans hl)
    rw [hl] at hrw
    cases hrw
    exact hri' (ht.listed r hr i hk hru hku (addrEq_symm (addrEq_trans hkd had)))

theorem dropRouter_unlisted {k : ℕ} (ht : Tabled cfg w) (hk : routerLookup cfg w addr=some k) :
    let u := dropRouter cfg w k
    u.neighbor=w.neighbor ∧ (∀ r,(u.router r).used → u.router r=w.router r) ∧
      ∀ r < cfg.nd6Routers,(u.router r).used → addrEq addr (u.router r).addr=false := by
  obtain ⟨hlt,hku,hkd⟩ := routerLookup_some hk
  obtain ⟨-,hn,hrt,-⟩ := @dropRouter_spec cfg Kind.any w k hlt hku rfl rfl
  have hs : ∀ r,((dropRouter cfg w k).router r).used → r≠k ∧ (dropRouter cfg w k).router r=w.router r := by
    intro r hr
    rw [hrt] at hr ⊢
    have hne : r≠k := by
      rintro rfl
      rw [setRouter_self] at hr
      cases hr
    exact ⟨hne,setRouter_of_ne w _ hne⟩
  refine ⟨hn,fun r hr => (hs r hr).2,fun r hr hru => ?_⟩
  obtain ⟨hne,hsm⟩ := hs r hru
  rw [hsm] at hru ⊢
  rw [eq_false_iff]
  intro ha
  exact hne (ht.listed r hr k hlt hru hku (addrEq_symm (addrEq_trans hkd ha)))

variable (ht : Tabled cfg w) (hp : Pointed cfg w)
include ht hp

theorem advertised_pointed {addr : Octets} {a : RouterArgs} : Pointed cfg (advertised cfg w addr a) := by
  have hqt : ∀ {u v},Quiet u v → Pointed cfg u → Pointed cfg v := fun hq hu => (Move.quiet hq).pointed rfl hu
  unfold advertised
  extract_lets ni ri v
  have hh : Holds cfg w addr ni := neighborLookup_holds
  split
  · have hv : v.neighbor=w.neighbor ∧ (∀ r,(v.router r).used → v.router r=w.router r) ∧
        ∀ r < cfg.nd6Routers,(v.router r).used → addrEq addr (v.router r).addr=false := by
      cases hri : ri with
      | none =>
        simp only [v,hri]
        exact ⟨trivial,fun _ _ => trivial,routerLookup_none hri⟩
      | some k =>
        simp only [v,hri]
        exact dropRouter_unlisted ht hri
    obtain ⟨hng,hrt,hno⟩ := hv
    have hpv : Pointed cfg v := hp.fewer hrt fun i hi => by
      rw [hng] at hi ⊢
      exact ⟨hi,rfl⟩
    split
    · exact hqt (quiet_io) hpv
    next u ni' hu =>
      obtain ⟨-,hs,hholds',hnw,-⟩ := recordNeighbor_spec (w := v) (by rw [Holds,hng]; exact hh)
        (fun hn => by rw [hng]; exact neighborLookup_none hn) hu
      refine hqt (routerDone_quiet) fun r hr hru j hj hju heq => ?_
      exact pointed_record hpv hs hholds' hnw hr hru (by rw [hs] at hru ⊢; exact hno r hr hru) hj hju heq
  split
  · exact hqt (quiet_io) hp
  next t ni' hv =>
    obtain ⟨hm,hs,hholds',hnw,hnn⟩ := recordNeighbor_spec hh (fun hn => neighborLookup_none hn) hv
    have hri : routerLookup cfg t addr=ri := by
      unfold routerLookup
      rw [hs]
      rfl
    have ho := fun r hr hru hne j hj hju heq => @pointed_record cfg w t r addr ni' hp hs hholds' hnw hr hru hne j hj hju heq
    split
    next hf =>
      have hun : ri=none := by
        cases hl : ri with
        | none => rfl
        | some k =>
          rw [hl] at hf
          cases hf
      refine hqt (quiet_io) fun r hr hru j hj hju heq => ?_
      exact ho r hr hru (routerLookup_none (hri.trans hun) r hr hru) j hj hju heq
    next u i hu =>
      refine hqt (routerDone_quiet) (pointed_list (hm.tabled ht) hri hu hholds' (fun hn => ?_) ho)
      obtain ⟨rfl,hni⟩ := hnn hn
      exact neighborLookup_none hni

theorem routerSet_cut (a : RouterArgs) : Cut cfg w (routerSet cfg w a) := by
  refine (routerSet_moves).steady.cut ?_
  unfold routerSet
  extract_lets io u
  have hu : Move cfg .quiet w u := .quiet (quiet_io)
  split
  · exact hu.pointed rfl hp
  next addr _ =>
    split
    · exact hu.pointed rfl hp
    · have hl : Move cfg .quiet w (u.latch a.nowMs) := .quiet ((quiet_io).trans (latch_quiet u a.nowMs))
      exact advertised_pointed (hl.tabled ht) (hl.pointed rfl hp)

/-- A neighbor created where no router is listed, or revised; when its flag goes, its router and destinations do. -/
theorem setNeighbor_cut (a : NeighborArgs)
    (hnw : neighborLookup cfg w addr=none → (firstIndex cfg.nd6Neighbors fun i => !(w.neighbor i).used)≠none →
      routerLookup cfg w addr=none) : Cut cfg w (setNeighbor cfg w addr a) := by
  unfold setNeighbor
  split
  next hnn =>
    split
    · exact (quiet_io).cut hp.cut
    next v i hv =>
      obtain ⟨k,hk,-⟩ := map_eq_some_iff.1 hv
      have hl := hnw hnn (by rw [hk]; exact some_ne_none k)
      obtain ⟨hmv,hlt,hu,ha,hrt,-,-,ho⟩ := createNeighbor_spec (neighborLookup_none hnn) hv
      refine (report_quiet v i .ok).cut ((hmv.steady rfl).cut fun r hr hru j hj hju heq => ?_)
      refine @pointed_record cfg w v r addr (some i) hp hrt ?_ (fun j _ hju => ?_) hr hru ?_ j hj hju heq
      · rintro j ⟨⟩
        exact ⟨hlt,hu,ha⟩
      · by_cases hji : j=i
        · exact .inl (by rw [hji])
        · rw [ho j hji] at hju ⊢
          exact .inr ⟨hju,rfl⟩
      · rw [hrt] at hru ⊢
        exact routerLookup_none hl r hr hru
  next i hi =>
    obtain ⟨hlt,hiu,-⟩ := neighborLookup_some hi
    obtain ⟨hu,ha,hh⟩ := @revised_same cfg (w.neighbor i) w.ctx a
    extract_lets v v'
    have hdm : Move cfg .demote w v := .demote hu ha hh
    have hsl : v.neighbor i=(w.neighbor i).revised cfg w.ctx a := setNeighbor_self w i _
    have ho : ∀ k,k≠i → v.neighbor k=w.neighbor k := fun k hk => setNeighbor_of_ne w _ hk
    have hs : ∀ k,(v.neighbor k).used=(w.neighbor k).used ∧ (v.neighbor k).addr=(w.neighbor k).addr := fun k => by
      by_cases hk : k=i
      · rw [hk,hsl]
        exact ⟨hu,ha⟩
      · rw [ho k hk]
        exact ⟨rfl,rfl⟩
    have hpv : Pointed cfg v := hp.fewer (fun _ _ => rfl) fun k hk => ⟨(hs k).1.symm.trans hk,(hs k).2⟩
    refine (report_quiet v' i .ok).cut ?_
    simp only [v']
    split
    next hfl =>
      obtain ⟨hm,hn,-,-,hun⟩ := @dropRouterOf_spec cfg Kind.cuts v (hdm.tabled ht) i hlt rfl rfl
      have hpn := (hm.cut hpv.cut).1
      refine ⟨hpn,fun k hk hku => ?_⟩
      by_cases hki : k=i
      · refine .inr ⟨fun r hr hru => ?_,fun d hd hdu => hki ▸ hun.2 d hd hdu⟩
        rw [eq_false_iff]
        intro heq
        refine hun.1 r hr hru ((hpn r hr hru k hk ?_ ?_).trans hki)
        · rw [hn,(hs k).1,hku]
        · rw [hn,(hs k).2]
          exact heq
      · refine .inl ?_
        unfold Keeps
        rw [hn,ho k hki]
        exact ⟨hku,rfl,fun hf => hf⟩
    next hfl =>
      refine Steady.cut (fun k hku => ⟨(hs k).1.trans hku,(hs k).2,fun hf => ?_⟩) hpv
      by_cases hki : k=i
      · rw [hki] at hf ⊢
        rw [hf,Bool.true_and,Bool.not_eq_true',Bool.not_eq_false] at hfl
        exact hfl
      · rw [ho k hki]
        exact hf

theorem neighborSet_cut {a : NeighborArgs} (hc : orphans cfg w (.neighborSet a)=false) : Cut cfg w (neighborSet cfg w a) := by
  unfold neighborSet
  extract_lets io u
  have hu : Quiet w u := quiet_io
  split
  · exact hu.cut hp.cut
  next addr ha =>
    split
    · exact hu.cut hp.cut
    next hrd =>
      have hl : Quiet w (u.latch a.nowMs) := hu.trans (latch_quiet u a.nowMs)
      have hnw : neighborLookup cfg w addr=none → (firstIndex cfg.nd6Neighbors fun i => !(w.neighbor i).used)≠none →
          routerLookup cfg w addr=none := by
        intro hn hf
        have hr : w.ctx.ready := by simpa using hrd
        simp only [orphans,ha,any_some,hr,hn,isNone_none,isSome_iff_ne_none.2 hf,Bool.true_and] at hc
        exact isSome_eq_false_iff.1 hc |> isNone_iff_eq_none.1
      exact setNeighbor_cut ((Move.quiet hl).tabled ht) ((Move.quiet hl).pointed rfl hp) a hnw

omit ht hp

theorem Swept.cut (hs : Swept cfg u v) (hq : Queued cfg u lists) (h : Cut cfg w u) : Cut cfg w v := by
  cases hs with
  | moved hm _ => exact hm.cut h
  | @released t x io hm hx hu hio =>
    obtain ⟨i,hi,hmm⟩ := (hm.queued hq).listed hx hu
    have hr := (releasePending_spec (hm.queued hq) hi hmm).withIo hio
    exact hr.apart.cut (hm.cut h)

theorem pendingPop_cut (hq : Queued cfg w lists) (hp : Pointed cfg w) {i : ℕ} {now : BitVec 32} :
    Cut cfg w (pendingPop cfg w i now) := by
  rcases @pendingPop_spec cfg w i now with ⟨hqt,-⟩|⟨u,io,hqt,hi,hl,hlt,hio,heq⟩
  · exact hqt.cut hp.cut
  have hr := (releasePending_spec ((Move.quiet hqt).queued hq) hi (hq.first_mem hi hl hlt)).withIo hio
  rw [heq]
  exact hr.apart.cut (hqt.cut hp.cut)

theorem pendingPush_cut (hq : Queued cfg w lists) (hp : Pointed cfg w) (a : PendingArgs) : Cut cfg w (pendingPush cfg w a) := by
  rcases @pendingPush_spec cfg w a with ⟨hqt,-⟩|⟨u,x,hqt,-,hi,hlv,hln,hx,hc⟩
  · exact hqt.cut hp.cut
  have hqu : Queued cfg u lists := (Move.quiet hqt).queued hq
  have hl : u.live a.neighbor := (hqt.used a.neighbor).trans hlv
  rcases hc with ⟨hfr,heq⟩|⟨hf,heq⟩
  · rw [heq]
    exact (pushPending_spec hqu hi hl hln hx hfr).apart.cut (hqt.cut hp.cut)
  have hm : x∈lists a.neighbor := by
    rw [hf]
    exact hq.first_mem hi hlv (hf ▸ hx)
  have hr := releasePending_spec hqu hi hm
  have hli : (releasePending cfg u x).live a.neighbor := (hr.apart.used a.neighbor).trans hl
  rw [heq]
  exact (pushPending_spec hr.queued hi hli hln hx hr.gone).apart.cut (hr.apart.cut (hqt.cut hp.cut))

theorem step_cut (ht : Tabled cfg w) (hq : Queued cfg w lists) (hp : Pointed cfg w)
    (hc : orphans cfg w c=false) : Cut cfg w (step cfg w c) := by
  cases c with
  | neighborFind a => exact (neighborFind_quiet).cut hp.cut
  | neighborSet a => exact neighborSet_cut ht hp hc
  | neighborConfirm i now => exact (neighborConfirm_quiet w i now).cut hp.cut
  | neighborUsed i now => exact (neighborUsed_quiet w i now).cut hp.cut
  | neighborRemove i now =>
    obtain ⟨u,hu,-,hs⟩ := neighborRemove_swept ht hq i now
    exact hs.cut ((Move.quiet hu).queued hq) (hu.cut hp.cut)
  | destFind a => exact (destFind_quiet).cut hp.cut
  | destSet a => exact (destSet_moves).mild_cut hp
  | prefixSet a => exact (prefixSet_moves).mild_cut hp
  | prefixOnLink a => exact (prefixOnLink_quiet).cut hp.cut
  | routerSet a => exact routerSet_cut ht hp a
  | routerSelect now => exact (routerSelect_quiet).cut hp.cut
  | pendingPush a => exact pendingPush_cut hq hp a
  | pendingPop i now => exact pendingPop_cut hq hp
  | paramsSet a => exact (paramsSet_quiet).cut hp.cut
  | tick now rand =>
    obtain ⟨u,hu,-,hs⟩ := tick_swept ht hq now rand
    exact hs.cut ((Move.quiet hu).queued hq) (hu.cut hp.cut)

/-- In every run that creates no neighbor for a listed address, each call takes the router and destinations of every
neighbor it deletes or that is no router any more. -/
theorem run_cleansed (cfg : Config) (w : Work) (cs : List Call)
    (h : Along (step cfg) (fun w c => orphans cfg w c=false) (clear w) cs) :
    Along (step cfg) (Cleansed cfg) (clear w) cs := by
  have hkeep : ∀ (w : Work) (c : Call),(Tabled cfg w ∧ (∃ lists,Queued cfg w lists) ∧ Pointed cfg w) → orphans cfg w c=false →
      Tabled cfg (step cfg w c) ∧ (∃ lists,Queued cfg (step cfg w c) lists) ∧ Pointed cfg (step cfg w c) := by
    rintro w c ⟨ht,⟨lists,hq⟩,hp⟩ hc
    obtain ⟨lists',hpass⟩ := step_passed ht hq c
    exact ⟨hpass.tabled,⟨lists',hpass.queued⟩,(step_cut ht hq hp hc).1⟩
  have hstart : Tabled cfg (clear w) ∧ (∃ lists,Queued cfg (clear w) lists) ∧ Pointed cfg (clear w) :=
    ⟨clear_tabled,⟨_,clear_queued w⟩,nofun⟩
  refine Along.imp hkeep (fun w c hw hc => ?_) hstart h
  obtain ⟨ht,⟨lists,hq⟩,hp⟩ := hw
  exact (step_cut ht hq hp hc).cleansed

section Examples

/-- A borrow before `clear`. -/
def blank : Work :=
  ⟨⟨0,0,0,0,0,0,0,0,0,0,0,0,0,false,false,false⟩,fun _ => .zero,fun _ => .zero,fun _ => .zero,fun _ => .zero,fun _ => .zero,
    ⟨.err,none,none,none,0,0,0,0,0,0,0,0,0,0,0,0,.incomplete,0,0,0,false,false,false,false,false,false⟩⟩

def linkLocal : Octets := fun k => if k=0 then 0xFE else if k=1 then 0x80 else if k=15 then 1 else 0

/-- A router advertises itself, with its link-layer address or without. -/
def advertises (lladdr : Option Octets) : Call := .routerSet ⟨some linkLocal,lladdr,1800,0⟩

/-- A neighbor advertises that it is a router, or that it is not. -/
def announces (isRouter : Bool) : Call := .neighborSet ⟨some linkLocal,some .zero,.stale,isRouter,false,true,0⟩

/-- A router whose address was known records its neighbor, and goes with the flag. -/
theorem run_cleansed_known :
    Along (step .shipped) (fun w c => orphans .shipped w c=false) (clear blank) [advertises (some .zero),announces false] ∧
    Along (step .shipped) (Cleansed .shipped) (clear blank) [advertises (some .zero),announces false] ∧
    ((run (step .shipped) (clear blank) [advertises (some .zero)]).router 0).used=true ∧
    ((run (step .shipped) (clear blank) [advertises (some .zero),announces false]).router 0).used=false := by
  have hknown : Along (step .shipped) (fun w c => orphans .shipped w c=false) (clear blank)
      [advertises (some .zero),announces false] := ⟨rfl,by decide +kernel,trivial⟩
  exact ⟨hknown,run_cleansed .shipped blank _ hknown,by decide +kernel,by decide +kernel⟩

/-- A router listed before its neighbor is known stays listed when the neighbor is no router any more. -/
theorem listed_router_stays : ¬∀ (cfg : Config) (w : Work) (cs : List Call),Along (step cfg) (Cleansed cfg) (clear w) cs := by
  intro h
  have hrun := h .shipped blank [advertises none,announces true,announces false]
  have hlast := hrun.2.2.1 0 (by decide) (by decide +kernel) (.inr (by decide +kernel))
  have hrouter := hlast.1 0 (by decide) (by decide +kernel)
  revert hrouter
  decide +kernel

end Examples

end IdemIp.Nd6
