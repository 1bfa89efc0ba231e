import IdemIp.Nd6Moves
import IdemIp.StepRun

/-!
# Frames queued for neighbors, over whole runs

Over a run from `clear` the tables stay in order, every frame waits on the queue of
the neighbor it names in the order it was pushed, and the frames accepted are those
queued and those reported.
-/

namespace IdemIp.Nd6

section Queues

open IndexChain Slots Work Function

/-- What a caller gives and gets back: a descriptor and the octets of its frame. -/
structure Frame where
  (desc len : ℕ)
deriving DecidableEq

/-- The frame of a row. -/
def Pending.frame (p : Pending) : Frame := ⟨p.desc,p.len⟩

/-- The frame a call reports. -/
def Io.frame (io : Io) : Frame := ⟨io.desc,io.len⟩

/-- The frame a caller queues. -/
def PendingArgs.frame (a : PendingArgs) : Frame := ⟨a.desc,a.len⟩

/-- The row holds a frame. -/
def Work.holds (w : Work) (p : ℕ) : Bool := (w.pending p).used

/-- The neighbor is in use. -/
def Work.live (w : Work) (i : ℕ) : Bool := (w.neighbor i).used

/-- First frame of a neighbor. -/
def Work.first (w : Work) (i : ℕ) : ℕ := (w.neighbor i).pendingHead

/-- The frames held stand once on the lists of the neighbors they name, and none is empty. -/
structure Queued (cfg : Config) (w : Work) (lists : ℕ → List ℕ) : Prop where
  /-- The lists of the neighbors in use are threaded through the rows that hold a frame, and counted. -/
  threaded : Threaded cfg.nd6Neighbors cfg.nd6Pending none8 w.holds w.ctx.pendings w.pendingNext w.first w.live lists
  /-- A frame names the neighbor whose list it is on. -/
  named : ∀ i < cfg.nd6Neighbors,∀ p∈lists i,(w.pending p).neighbor=i
  len : ∀ p,(w.pending p).used=true → (w.pending p).frame.len≠0

variable {cfg : Config} {w w' : Work} {ls : ℕ → List ℕ}

theorem pending_le_none (cfg : Config) : cfg.nd6Pending≤none8 := Nat.le_of_lt cfg.nd6Pending_lt

/-- Nothing but the rows, the queues of the neighbors in use and the count matters. -/
theorem Queued.congr (h : Queued cfg w ls) (hp : w'.pending=w.pending) (hc : w'.ctx.pendings=w.ctx.pendings)
    (hused : ∀ i,(w'.neighbor i).used=(w.neighbor i).used) (hhead : ∀ i,(w'.neighbor i).pendingHead=(w.neighbor i).pendingHead) :
    Queued cfg w' ls := by
  refine ⟨h.threaded.congr hused hhead hc (fun p _ => ?_) fun p _ => ?_,fun i hi p hpi => ?_,fun p hu => ?_⟩
  · rw [holds,hp,holds]
  · rw [pendingNext,hp,pendingNext]
  · rw [hp]
    exact h.named i hi p hpi
  · rw [hp] at hu ⊢
    exact h.len p hu

variable {i x : ℕ} {k : Kind} {ok : Kind → Bool}

theorem Queued.first_mem (h : Queued cfg w ls) (hi : i < cfg.nd6Neighbors) (hu : w.live i)
    (hlt : w.first i < cfg.nd6Pending) : w.first i∈ls i :=
  Chain.head_mem (pending_le_none cfg) (h.threaded.chain i hi hu) hlt

theorem Queued.listed (h : Queued cfg w ls) (hx : x < cfg.nd6Pending) (hu : w.holds x) :
    ∃ i < cfg.nd6Neighbors,x∈ls i := mem_flat.1 ((h.threaded.kept.mem x).2 ⟨hx,hu⟩)

theorem Move.queued (hm : Move cfg k w w') (h : Queued cfg w ls) : Queued cfg w' ls := by
  cases hm with
  | quiet hq => exact h.congr hq.pending hq.counts.2.2.2.2 hq.used hq.head
  | @addNeighbor _ i n hi hfr hnw hu hh =>
    have hnl : ls i=[] := h.threaded.free i hi hfr
    have hs : update ls i []=ls := by rw [←hnl,update_eq_self]
    have hkp : Kept cfg.nd6Neighbors cfg.nd6Pending w.holds w.ctx.pendings (update ls i []) := by
      rw [hs]
      exact h.threaded.kept
    have hsl := setNeighbor_self w i n
    have hl : ∀ k,k≠i → ((w.setNeighbor i n).neighbor k).used=w.live k := fun k hk => by
      rw [setNeighbor_of_ne w n hk,live]
    have hf : ∀ k,k≠i → ((w.setNeighbor i n).neighbor k).pendingHead=w.first k := fun k hk => by
      rw [setNeighbor_of_ne w n hk,first]
    have hc : Chain w.pendingNext cfg.nd6Pending none8 ((w.setNeighbor i n).neighbor i).pendingHead [] := by
      rw [hsl,hh]
      exact Chain.nil
    have hnw := h.threaded.rethread hi hl hf (by rw [hsl,hu]) hkp hc fun _ _ _ => rfl
    rw [hs] at hnw
    exact ⟨hnw,h.named,h.len⟩
  | @dropNeighbor _ i hi hu hqu hun =>
    have hnl : ls i=[] := ((h.threaded.chain i hi hu).nil_iff (pending_le_none cfg)).1 hqu
    have hs : update ls i []=ls := by rw [←hnl,update_eq_self]
    have hsl := setNeighbor_self w i {Neighbor.zero with pendingHead := none8}
    have hl : ∀ k,k≠i → ((w.setNeighbor i {Neighbor.zero with pendingHead := none8}).neighbor k).used=w.live k :=
      fun k hk => by rw [setNeighbor_of_ne w _ hk,live]
    have hf : ∀ k,k≠i → ((w.setNeighbor i {Neighbor.zero with pendingHead := none8}).neighbor k).pendingHead=w.first k :=
      fun k hk => by rw [setNeighbor_of_ne w _ hk,first]
    have hnw := h.threaded.close hi hl hf (by rw [hsl]; rfl) (fun p _ => by rw [hnl,if_neg List.not_mem_nil])
      fun _ _ => rfl
    rw [hs,hnl] at hnw
    exact ⟨hnw,h.named,h.len⟩
  | @demote _ i n hu ha hh =>
    refine h.congr rfl rfl (fun k => ?_) fun k => ?_
    · by_cases hk : k=i
      · rw [hk,setNeighbor_self,hu]
      · rw [setNeighbor_of_ne _ _ hk]
    · by_cases hk : k=i
      · rw [hk,setNeighbor_self,hh]
      · rw [setNeighbor_of_ne _ _ hk]
  | addDestination hi hfr hu => exact ⟨h.threaded,h.named,h.len⟩
  | setDestination hu => exact ⟨h.threaded,h.named,h.len⟩
  | dropDestination hi hu => exact ⟨h.threaded,h.named,h.len⟩
  | addPrefix hi hfr hu => exact ⟨h.threaded,h.named,h.len⟩
  | dropPrefix hi hu => exact ⟨h.threaded,h.named,h.len⟩
  | addRouter hi hfr hnw hu hn => exact ⟨h.threaded,h.named,h.len⟩
  | setRouter hi hu ha hn => exact ⟨h.threaded,h.named,h.len⟩
  | dropRouter hi hu => exact ⟨h.threaded,h.named,h.len⟩

theorem Move.pending (hm : Move cfg k w w') : w'.pending=w.pending := by
  cases hm with
  | quiet hq => exact hq.pending
  | addNeighbor => rfl
  | dropNeighbor => rfl
  | demote => rfl
  | addDestination => rfl
  | setDestination => rfl
  | dropDestination => rfl
  | addPrefix => rfl
  | dropPrefix => rfl
  | addRouter => rfl
  | setRouter => rfl
  | dropRouter => rfl

theorem Moves.queued (h : Moves cfg ok w w') (hq : Queued cfg w ls) : Queued cfg w' ls :=
  h.keeps (fun _ _ _ _ hm hu => hm.queued hu) hq

theorem Moves.pending (h : Moves cfg ok w w') : w'.pending=w.pending :=
  h.keeps (fun _ _ _ _ hm hu => hm.pending.trans hu) rfl

theorem Moves.tabled (h : Moves cfg ok w w') (ht : Tabled cfg w) : Tabled cfg w' :=
  h.keeps (fun _ _ _ _ hm hu => hm.tabled hu) ht

/-- The neighbors are the same but for their queues, and the other tables are. -/
structure Apart (w w' : Work) : Prop where
  used : ∀ i,(w'.neighbor i).used=(w.neighbor i).used
  addr : ∀ i,(w'.neighbor i).addr=(w.neighbor i).addr
  flag : ∀ i,(w'.neighbor i).isRouter=(w.neighbor i).isRouter
  destination : w'.destination=w.destination
  router : w'.router=w.router
  prefixes : w'.prefixAt=w.prefixAt
  counts : w'.ctx.neighbors=w.ctx.neighbors ∧ w'.ctx.destinations=w.ctx.destinations ∧
    w'.ctx.prefixes=w.ctx.prefixes ∧ w'.ctx.routers=w.ctx.routers

theorem Apart.tabled (h : Apart w w') (ht : Tabled cfg w) : Tabled cfg w' :=
  ht.congr h.used h.addr h.router (fun _ => by rw [h.destination]) (fun _ => by rw [h.prefixes]) h.counts

theorem Apart.trans {w'' : Work} (h : Apart w w') (h' : Apart w' w'') : Apart w w'' := by
  obtain ⟨hcn,hcd,hcp,hcr⟩ := h.counts
  obtain ⟨hcn',hcd',hcp',hcr'⟩ := h'.counts
  exact ⟨fun i => (h'.used i).trans (h.used i),fun i => (h'.addr i).trans (h.addr i),fun i => (h'.flag i).trans (h.flag i),
    h'.destination.trans h.destination,h'.router.trans h.router,h'.prefixes.trans h.prefixes,
    hcn'.trans hcn,hcd'.trans hcd,hcp'.trans hcp,hcr'.trans hcr⟩

theorem apart_setPending (w : Work) (x : ℕ) (p : Pending) : Apart w (w.setPending x p) :=
  ⟨fun _ => rfl,fun _ => rfl,fun _ => rfl,rfl,rfl,rfl,rfl,rfl,rfl,rfl⟩

theorem apart_setHead (w : Work) (i x : ℕ) : Apart w (w.setNeighbor i {w.neighbor i with pendingHead := x}) := by
  have hc : ∀ k,k=i ∧ (w.setNeighbor i {w.neighbor i with pendingHead := x}).neighbor k={w.neighbor i with pendingHead := x} ∨
      (w.setNeighbor i {w.neighbor i with pendingHead := x}).neighbor k=w.neighbor k := fun k => by
    by_cases hk : k=i
    · exact .inl ⟨hk,by rw [hk,setNeighbor_self]⟩
    · exact .inr (setNeighbor_of_ne w _ hk)
  refine ⟨fun k => ?_,fun k => ?_,fun k => ?_,rfl,rfl,rfl,rfl,rfl,rfl,rfl⟩
  all_goals
    rcases hc k with ⟨rfl,h⟩|h
    · rw [h]
    · rw [h]

theorem setPending_self (w : Work) (i : ℕ) (p : Pending) : (w.setPending i p).pending i=p := update_self _ _ _

theorem setPending_of_ne {w : Work} {i k : ℕ} {p : Pending} (hk : k≠i) : (w.setPending i p).pending k=w.pending k :=
  update_of_ne hk _ _

/-- A row but for its link. -/
def Pending.bare (p : Pending) : Pending := {p with next := 0}

theorem Pending.of_bare {p q : Pending} (h : p.bare=q.bare) : p.used=q.used ∧ p.frame=q.frame ∧ p.neighbor=q.neighbor := by
  obtain ⟨_,_,_,_,_,_⟩ := p
  obtain ⟨_,_,_,_,_,_⟩ := q
  cases h
  exact ⟨rfl,rfl,rfl⟩

theorem setNext_bare (w : Work) (i n k : ℕ) : ((w.setPending i {w.pending i with next := n}).pending k).bare=(w.pending k).bare := by
  by_cases hk : k=i
  · rw [hk,setPending_self]
    rfl
  · rw [setPending_of_ne hk]

theorem pendingUnlink_spec (w : Work) (i x : ℕ) :
    Apart w (pendingUnlink cfg w i x) ∧ (∀ k,((pendingUnlink cfg w i x).pending k).bare=(w.pending k).bare) ∧
      (pendingUnlink cfg w i x).ctx=w.ctx ∧ (pendingUnlink cfg w i x).io=w.io ∧
      ∀ k,k≠i → ((pendingUnlink cfg w i x).neighbor k).pendingHead=(w.neighbor k).pendingHead := by
  unfold pendingUnlink
  split
  · exact ⟨apart_setHead w i _,fun _ => rfl,rfl,rfl,fun k hk => by rw [setNeighbor_of_ne _ _ hk]⟩
  split
  · exact ⟨⟨fun _ => rfl,fun _ => rfl,fun _ => rfl,rfl,rfl,rfl,rfl,rfl,rfl,rfl⟩,fun _ => rfl,rfl,rfl,fun _ _ => rfl⟩
  next t _ => exact ⟨apart_setPending w t _,setNext_bare w t _,rfl,rfl,fun _ _ => rfl⟩

/-- Hanging a frame behind a queue writes its own link, and one link or one head. -/
theorem pendingLink_spec (w : Work) (i x : ℕ) :
    Apart w (pendingLink cfg w i x) ∧ (∀ k,((pendingLink cfg w i x).pending k).bare=(w.pending k).bare) ∧
      (pendingLink cfg w i x).ctx=w.ctx ∧ (pendingLink cfg w i x).io=w.io ∧
      ∀ k,k≠i → ((pendingLink cfg w i x).neighbor k).pendingHead=(w.neighbor k).pendingHead := by
  unfold pendingLink
  extract_lets src u
  have hu : ∀ k,(u.pending k).bare=(w.pending k).bare := setNext_bare w x _
  split
  · exact ⟨(apart_setPending w x _).trans (apart_setHead u i x),hu,rfl,rfl,fun k hk => by rw [setNeighbor_of_ne _ _ hk]; rfl⟩
  split
  · exact ⟨apart_setPending w x _,hu,rfl,rfl,fun _ _ => rfl⟩
  next t _ =>
    exact ⟨(apart_setPending w x _).trans (apart_setPending u t _),fun k => (setNext_bare u t x k).trans (hu k),rfl,rfl,
      fun _ _ => rfl⟩

/-- A frame leaves its queue and is reported. -/
structure Released (cfg : Config) (w w' : Work) (lists : ℕ → List ℕ) (i x : ℕ) : Prop where
  queued : Queued cfg w' (update lists i ((lists i).erase x))
  apart : Apart w w'
  gone : (w'.pending x).used=false
  others : ∀ k,k≠x → (w'.pending k).used=(w.pending k).used ∧ (w'.pending k).frame=(w.pending k).frame
  nowMs : w'.ctx.nowMs=w.ctx.nowMs
  reported : w'.io.frame=(w.pending x).frame

theorem releasePending_spec (h : Queued cfg w ls) (hi : i < cfg.nd6Neighbors) (hx : x∈ls i) :
    Released cfg w (releasePending cfg w x) ls i x := by
  have hname : (w.pending x).neighbor=i := h.named i hi x hx
  have hlive : w.live i := by
    rw [←Bool.not_eq_false]
    intro hf
    rw [h.threaded.free i hi hf] at hx
    cases hx
  obtain ⟨hapart,hbare,hctx,hio,hhead⟩ := @pendingUnlink_spec cfg w i x
  obtain ⟨hcn,hcd,hcp,hcr⟩ := hapart.counts
  have heq : releasePending cfg w x=
      let u := pendingUnlink cfg w i x
      {u.setPending x ⟨0,0,0,none8,none8,false⟩ with
        io := {u.io with pending := x,desc := (w.pending x).desc,len := (w.pending x).len,neighbor := i}
        ctx := {u.ctx with pendings := u.ctx.pendings-1}} := by
    rw [releasePending]
    simp only [hname,if_pos hi]
  rw [heq]
  dsimp only
  generalize hu : pendingUnlink cfg w i x=u at *
  have hself := setPending_self u x ⟨0,0,0,none8,none8,false⟩
  have hother : ∀ k,k≠x → (u.setPending x ⟨0,0,0,none8,none8,false⟩).pending k=u.pending k := fun k hk =>
    setPending_of_ne hk
  have hkept : ∀ k,_ := fun k => Pending.of_bare (hbare k)
  have hstay : ∀ d < cfg.nd6Neighbors,∀ p∈update ls i ((ls i).erase x) d,p∈ls d ∧ p≠x := by
    intro d hd p hp
    by_cases hdi : d=i
    · rw [hdi,update_self,(h.threaded.kept.nodup_row hi).mem_erase_iff] at hp
      rw [hdi]
      exact ⟨hp.2,hp.1⟩
    · rw [update_of_ne hdi] at hp
      exact ⟨hp,fun hpx => hdi (h.threaded.kept.row_unique hd hi hp (hpx ▸ hx))⟩
  refine ⟨⟨?_,fun d hd p hp => ?_,fun p hp => ?_⟩,
    ⟨hapart.used,hapart.addr,hapart.flag,hapart.destination,hapart.router,hapart.prefixes,hcn,hcd,hcp,hcr⟩,
    by rw [hself],fun k hk => ?_,by rw [hctx],rfl⟩
  · have hcount : u.ctx.pendings-1=w.ctx.pendings-1 := by rw [hctx]
    rw [hcount]
    refine h.threaded.unlink (pending_le_none cfg) hi hlive hx hapart.used hhead (fun k hk => ?_) (fun hf => ?_) fun p hne hp hpx => ?_
    · by_cases hkx : k=x
      · rw [hkx,update_self,holds,hself]
      · rw [update_of_ne hkx,holds,hother k hkx,(hkept k).1,holds]
    · have hcut : u=w.setNeighbor i {w.neighbor i with pendingHead := (w.pending x).next} := by
        rw [←hu]
        exact if_pos hf
      refine ⟨?_,fun k _ hk => ?_⟩
      · show (u.neighbor i).pendingHead=_
        rw [hcut,setNeighbor_self]
        rfl
      · rw [pendingNext,hother k hk,hcut]
        rfl
    · have hcut : u=w.setPending p {w.pending p with next := (w.pending x).next} := by
        have hp' : pred? w.pendingNext cfg.nd6Pending x cfg.nd6Pending (w.neighbor i).pendingHead=some p := hp
        refine (hu.symm.trans (if_neg hne)).trans ?_
        rw [hp']
      refine ⟨?_,?_,fun k _ hk hkp => ?_⟩
      · show (u.neighbor i).pendingHead=_
        rw [hcut]
        rfl
      · rw [pendingNext,hother p hpx,hcut,setPending_self]
        rfl
      · rw [pendingNext,hother k hk,hcut,setPending_of_ne hkp]
        rfl
  · obtain ⟨hmem,hpx⟩ := hstay d hd p hp
    rw [hother p hpx,(hkept p).2.2]
    exact h.named d hd p hmem
  · have hpx : p≠x := by
      rintro rfl
      rw [hself] at hp
      cases hp
    rw [hother p hpx] at hp ⊢
    rw [(hkept p).2.1]
    exact h.len p ((hkept p).1.symm.trans hp)
  · rw [hother k hk]
    exact ⟨(hkept k).1,(hkept k).2.1⟩

/-- A frame is hung behind the queue of its neighbor. -/
structure Pushed (cfg : Config) (w w' : Work) (lists : ℕ → List ℕ) (x : ℕ) (a : PendingArgs) : Prop where
  queued : Queued cfg w' (update lists a.neighbor (lists a.neighbor++[x]))
  apart : Apart w w'
  taken : (w'.pending x).used=true ∧ (w'.pending x).frame=a.frame
  others : ∀ k,k≠x → (w'.pending k).used=(w.pending k).used ∧ (w'.pending k).frame=(w.pending k).frame
  status : w'.io.status=.ok
  reported : w'.io.frame=w.io.frame

theorem pushPending_spec (h : Queued cfg w ls) {a : PendingArgs} (hi : a.neighbor < cfg.nd6Neighbors)
    (hlv : w.live a.neighbor) (hln : a.len≠0) (hx : x < cfg.nd6Pending) (hf : w.holds x=false) :
    Pushed cfg w (pushPending cfg w x a) ls x a := by
  obtain ⟨row,hus,hfr,hn,hl,heq⟩ : ∃ row : Pending,row.used ∧ row.frame=a.frame ∧ row.neighbor=a.neighbor ∧
      row.next=none8 ∧ pushPending cfg w x a=
        let u := pendingLink cfg (w.setPending x row) a.neighbor x
        {u with
          ctx := {u.ctx with pendings := u.ctx.pendings+1}
          io := {u.io with pending := x,neighbor := a.neighbor,status := .ok}} := ⟨_,rfl,rfl,rfl,rfl,rfl⟩
  rw [heq]
  dsimp only
  generalize hv : w.setPending x row=v
  have hvx : v.pending x=row := by rw [←hv,setPending_self]
  have hvk : ∀ k,k≠x → v.pending k=w.pending k := fun k hk => by rw [←hv,setPending_of_ne hk]
  have hvn : v.neighbor=w.neighbor := by rw [←hv]; rfl
  have hvc : v.ctx=w.ctx := by rw [←hv]; rfl
  have hs : v.setPending x {v.pending x with next := none8}=v := by
    have hr : ({v.pending x with next := none8} : Pending)=v.pending x := by
      rw [hvx,←hl]
    rw [hr,setPending,update_eq_self]
  obtain ⟨ha,hb,hct,hio,hh⟩ := @pendingLink_spec cfg v a.neighbor x
  generalize hu : pendingLink cfg v a.neighbor x=u at *
  have hke : ∀ k,_ := fun k => Pending.of_bare (hb k)
  have ho : ∀ k,k≠x → (u.pending k).used=(w.pending k).used ∧ (u.pending k).frame=(w.pending k).frame ∧
      (u.pending k).neighbor=(w.pending k).neighbor := fun k hk => by
    rw [←hvk k hk]
    exact hke k
  have hnw := hke x
  rw [hvx,hus,hfr,hn] at hnw
  have hst : Apart w v := by
    rw [←hv]
    exact apart_setPending w x row
  have hal := hst.trans ha
  refine ⟨⟨?_,fun d hd p hp => ?_,fun p hp => ?_⟩,
    ⟨hal.used,hal.addr,hal.flag,hal.destination,hal.router,hal.prefixes,hal.counts⟩,⟨hnw.1,hnw.2.1⟩,
    fun k hk => ⟨(ho k hk).1,(ho k hk).2.1⟩,rfl,?_⟩
  · have hc : u.ctx.pendings+1=w.ctx.pendings+1 := by rw [hct,hvc]
    rw [hc]
    have hm : ∀ k,k≠x → v.pendingNext k=w.pendingNext k := fun k hk => by rw [pendingNext,hvk k hk,pendingNext]
    have hxs : ∀ k,w.holds k → k≠x := by
      rintro k hk rfl
      rw [hf] at hk
      cases hk
    refine h.threaded.hang (pending_le_none cfg) hi hlv hx hf hal.used (fun k hk => (hh k hk).trans (by rw [hvn]; rfl))
      (fun k hk => ?_) hm (fun hge => ?_) fun p hlt hp hpx => ?_
    · by_cases hkx : k=x
      · rw [hkx,update_self]
        exact hnw.1
      · rw [update_of_ne hkx]
        exact (ho k hkx).1
    · have hpt : u=v.setNeighbor a.neighbor {v.neighbor a.neighbor with pendingHead := x} := by
        rw [←hu,pendingLink,hs]
        exact if_pos (by rw [hvn]; exact hge)
      rw [hpt]
      refine ⟨?_,?_,fun k hk => hm k (hxs k hk)⟩
      · show ((v.setNeighbor a.neighbor _).neighbor a.neighbor).pendingHead=x
        rw [setNeighbor_self]
      · show (v.pending x).next=none8
        rw [hvx,hl]
    · have hpt : u=v.setPending p {v.pending p with next := x} := by
        rw [←hu,pendingLink,hs]
        have hp' : tail? v.pendingNext cfg.nd6Pending cfg.nd6Pending (v.neighbor a.neighbor).pendingHead=some p := by
          rw [hvn]
          exact hp
        refine (if_neg (by rw [hvn]; exact not_le.2 hlt)).trans ?_
        rw [hp']
      rw [hpt]
      refine ⟨?_,?_,?_,fun k hk hkp => ?_⟩
      · show (v.neighbor a.neighbor).pendingHead=_
        rw [hvn]
        rfl
      · show ((v.setPending p _).pending x).next=none8
        rw [setPending_of_ne (Ne.symm hpx),hvx,hl]
      · show ((v.setPending p _).pending p).next=x
        rw [setPending_self]
      · show ((v.setPending p _).pending k).next=_
        rw [setPending_of_ne hkp]
        exact hm k (hxs k hk)
  · show (u.pending p).neighbor=d
    by_cases hpx : p=x
    · by_cases hda : d=a.neighbor
      · rw [hpx,hda,hnw.2.2]
      · rw [update_of_ne hda,hpx] at hp
        have hux := (h.threaded.kept.used_of_mem hd hp).2
        rw [hf] at hux
        cases hux
    rw [(ho p hpx).2.2]
    by_cases hda : d=a.neighbor
    · rw [hda,update_self,List.mem_append,List.mem_singleton] at hp
      rw [hda]
      exact h.named a.neighbor hi p (hp.resolve_right hpx)
    · rw [update_of_ne hda] at hp
      exact h.named d hd p hp
  · by_cases hpx : p=x
    · show (u.pending p).frame.len≠0
      rw [hpx,hnw.2.1]
      exact hln
    · show (u.pending p).frame.len≠0
      rw [(ho p hpx).2.1]
      exact h.len p ((ho p hpx).1.symm.trans hp)
  · show u.io.frame=_
    rw [hio,←hv]
    rfl

end Queues

section Runs

open IndexChain Slots StepRun List Function Work

variable {cfg : Config} {w u v : Work} {lists : ℕ → List ℕ}

/-- Moves that leave the operand block alone. -/
def Still (cfg : Config) (w u : Work) : Prop := Moves cfg Kind.cuts w u ∧ u.io=w.io

theorem Still.trans (h : Still cfg w u) (h' : Still cfg u v) : Still cfg w v := ⟨h.1.trans h'.1,h'.2.trans h.2⟩

theorem Still.refl (w : Work) : Still cfg w w := ⟨Moves.refl w,rfl⟩

theorem redraw_still {w : Work} {rand : BitVec 32} : Still cfg w (redraw cfg w rand) := by
  unfold redraw
  split
  · exact ⟨Quiet.moves (quiet_of_eq rfl rfl rfl rfl rfl ⟨rfl,rfl,rfl,rfl,rfl⟩) rfl,rfl⟩
  · exact Still.refl w

theorem expirePrefix_still (s : Work×BitVec 8) {i : ℕ} (hi : i < cfg.nd6Prefixes) : Still cfg s.1 (expirePrefix s i).1 := by
  unfold expirePrefix
  extract_lets p
  split
  next hc =>
    simp only [Bool.and_eq_true] at hc
    exact ⟨(Move.dropPrefix hi hc.1.1).moves rfl,rfl⟩
  next => exact Still.refl s.1

theorem expireRouter_still (s : Work×BitVec 8) {i : ℕ} (hi : i < cfg.nd6Routers) : Still cfg s.1 (expireRouter cfg s i).1 := by
  unfold expireRouter
  extract_lets r
  split
  next hc =>
    rw [Bool.and_eq_true] at hc
    obtain ⟨hm,-,-,hio,-⟩ := @dropRouter_spec cfg Kind.cuts s.1 i hi hc.1 rfl rfl
    exact ⟨hm,hio⟩
  next => exact Still.refl s.1

theorem expireDestination_still (s : Work×BitVec 8) {i : ℕ} (hi : i < cfg.nd6Destinations) :
    Still cfg s.1 (expireDestination cfg s i).1 := by
  unfold expireDestination
  extract_lets d
  split
  next hc =>
    simp only [Bool.and_eq_true] at hc
    exact ⟨(Move.dropDestination hi hc.1.1).moves rfl,rfl⟩
  next => exact Still.refl s.1

theorem ageNeighbor_still (w : Work) (i : ℕ) : Still cfg w (ageNeighbor w i) := by
  have hs : ((w.neighbor i).aged w.ctx.nowMs).used=(w.neighbor i).used ∧ ((w.neighbor i).aged w.ctx.nowMs).addr=(w.neighbor i).addr ∧
      ((w.neighbor i).aged w.ctx.nowMs).pendingHead=(w.neighbor i).pendingHead ∧
      ((w.neighbor i).aged w.ctx.nowMs).isRouter=(w.neighbor i).isRouter := by
    unfold Neighbor.aged
    split
    · exact ⟨rfl,rfl,rfl,rfl⟩
    split
    · exact ⟨rfl,rfl,rfl,rfl⟩
    split <;> exact ⟨rfl,rfl,rfl,rfl⟩
  exact ⟨(quiet_setNeighbor hs.1 hs.2.1 hs.2.2.1 fun h => hs.2.2.2.trans h).moves rfl,rfl⟩

theorem still_foldl {σ : Type*} (view : σ → Work) {f : σ → ℕ → σ} {n : ℕ} (hf : ∀ s,∀ k<n,Still cfg (view s) (view (f s k)))
    (s : σ) : Still cfg (view s) (view ((List.range n).foldl f s)) :=
  foldlRecOn (motive := fun t => Still cfg (view s) (view t)) (range n) f (Still.refl _)
    fun t ht k hk => ht.trans (hf t k (mem_range.1 hk))

theorem expireLists_still (w : Work) : Still cfg w (expireLists cfg w).1 := by
  unfold expireLists
  extract_lets s s'
  have hs : Still cfg w s.1 := still_foldl Prod.fst (fun t _ hk => expirePrefix_still t hk) (w,0)
  have hs' : Still cfg s.1 s'.1 := still_foldl Prod.fst (fun t _ hk => expireRouter_still t hk) s
  exact (hs.trans hs').trans (still_foldl Prod.fst (fun t _ hk => expireDestination_still t hk) s')

/-- What a sweep does: moves, and then one frame or none is released and reported. -/
inductive Swept (cfg : Config) (w : Work) : Work → Prop
  | moved {u : Work} (h : Moves cfg Kind.cuts w u) (hlen : u.io.len=w.io.len) : Swept cfg w u
  | released {v : Work} {x : ℕ} {io : Io} (h : Moves cfg Kind.cuts w v) (hx : x < cfg.nd6Pending) (hu : v.holds x)
      (hio : io.frame=(v.pending x).frame) : Swept cfg w {releasePending cfg v x with io := io}

/-- A sweep under way: until something is reported there are only moves. -/
def Sweeping (cfg : Config) (w u : Work) (done : Bool) : Prop := Swept cfg w u ∧ (done=false → Still cfg w u)

theorem Still.sweeping (h : Still cfg w u) (done : Bool) : Sweeping cfg w u done :=
  ⟨.moved h.1 (by rw [h.2]),fun _ => h⟩

theorem Still.released {x : ℕ} (h : Still cfg w v) (hx : x < cfg.nd6Pending) (hu : v.holds x) :
    Sweeping cfg w (releasePending cfg v x) true :=
  ⟨@Swept.released cfg w v x (releasePending cfg v x).io h.1 hx hu rfl,nofun⟩

theorem failNeighbor_sweeping (ht : Tabled cfg w) (hq : Queued cfg w lists) {s : (Work×BitVec 8)×Bool} {i : ℕ}
    (hi : i < cfg.nd6Neighbors) (hs : Sweeping cfg w s.1.1 s.2) :
    Sweeping cfg w (failNeighbor cfg s i).1.1 (failNeighbor cfg s i).2 := by
  unfold failNeighbor
  extract_lets n
  split
  · exact hs
  next hgo =>
    simp only [Bool.or_eq_true,not_or,Bool.not_eq_true,Bool.not_eq_false',Neighbor.failed,Bool.and_eq_true] at hgo
    obtain ⟨hd,hf⟩ := hgo
    have hst := hs.2 hd
    have hl : s.1.1.live i := hf.1.1.1
    have hqd := hst.1.queued hq
    split
    next hlt =>
      have hmm := hqd.first_mem hi hl hlt
      obtain ⟨hx,hu⟩ := hqd.threaded.kept.used_of_mem hi hmm
      exact hst.released hx hu
    next hge =>
      obtain ⟨hm,hio,-⟩ := freeNeighbor_spec (hst.1.tabled ht) hi hl (not_lt.1 hge)
      exact (hst.trans ⟨hm,hio⟩).sweeping false

theorem expirePending_sweeping {s : Work×Bool} (hs : Sweeping cfg w s.1 s.2) :
    Sweeping cfg w (expirePending cfg s).1 (expirePending cfg s).2 := by
  unfold expirePending
  split
  · exact hs
  next hd =>
    split
    · exact hs
    next x hx =>
      obtain ⟨hm,hlt,-⟩ := firstIndex_some.1 hx
      rw [Bool.and_eq_true] at hm
      exact (hs.2 (Bool.not_eq_true _ ▸ hd)).released hlt hm.1

theorem solicitNeighbor_swept {s : Work×Bool} (hs : Sweeping cfg w s.1 s.2) : Swept cfg w (solicitNeighbor cfg s).1 := by
  unfold solicitNeighbor
  split
  · exact hs.1
  next hd =>
    split
    · exact hs.1
    next i _ =>
      extract_lets n u
      have hst := hs.2 (Bool.not_eq_true _ ▸ hd)
      have hu : Quiet s.1 u := quiet_setNeighbor rfl rfl rfl fun h => h
      have hr : Quiet u (reportNeighbor {u with io := {u.io with
          solicit := true,multicast := n.state==.incomplete,target := some n.addr}} i) :=
        quiet_of_eq rfl rfl rfl rfl rfl ⟨rfl,rfl,rfl,rfl,rfl⟩
      refine .moved (hst.1.trans ((hu.trans hr).moves rfl)) ?_
      show s.1.io.len=w.io.len
      rw [hst.2]

theorem reachability_swept (ht : Tabled cfg w) (hq : Queued cfg w lists) {s : Work×BitVec 8} (hs : Still cfg w s.1) :
    Swept cfg w (reachability cfg s).1.1 := by
  unfold reachability
  extract_lets v f r
  have hv : Still cfg w v := hs.trans (still_foldl (fun u => u) (fun u k _ => ageNeighbor_still u k) s.1)
  have hf : Sweeping cfg w f.1.1 f.2 :=
    foldlRecOn (motive := fun t => Sweeping cfg w t.1.1 t.2) (range cfg.nd6Neighbors) (failNeighbor cfg)
      (hv.sweeping false) fun t htt k hk => failNeighbor_sweeping ht hq (mem_range.1 hk) htt
  exact solicitNeighbor_swept (expirePending_sweeping (s := (f.1.1,f.2)) hf)

/-- What is written to the operand block besides the frame reported does not matter. -/
theorem Swept.withIo (h : Swept cfg w u) {io : Io} (hio : io.frame=u.io.frame) : Swept cfg w {u with io := io} := by
  cases h with
  | moved h hl => exact .moved (h.trans ((quiet_io).moves rfl)) ((congrArg Frame.len hio).trans hl)
  | released h hx hu hio' => exact .released h hx hu (hio.trans hio')

theorem tick_swept (ht : Tabled cfg w) (hq : Queued cfg w lists) (now rand : BitVec 32) :
    ∃ u,Quiet w u ∧ u.io.len=0 ∧ Swept cfg u (tick cfg w now rand) := by
  unfold tick
  extract_lets io u
  have hu : Quiet w u := quiet_io
  split
  · exact ⟨u,hu,rfl,.moved (Moves.refl u) rfl⟩
  have hl : Quiet w (u.latch now) := hu.trans (latch_quiet u now)
  refine ⟨u.latch now,hl,rfl,?_⟩
  have hs : Still cfg (u.latch now) (expireLists cfg (redraw cfg (u.latch now) rand)).1 :=
    (redraw_still).trans (expireLists_still _)
  have hsw := reachability_swept ((Move.quiet hl).tabled ht) ((Move.quiet hl).queued hq) hs
  exact hsw.withIo rfl

theorem neighborRemove_swept (ht : Tabled cfg w) (hq : Queued cfg w lists) (i : ℕ) (now : BitVec 32) :
    ∃ u,Quiet w u ∧ u.io.len=0 ∧ Swept cfg u (neighborRemove cfg w i now) := by
  unfold neighborRemove
  extract_lets io u v io' v'
  have hu : Quiet w u := quiet_io
  have hv' : Quiet w v' := (hu.trans (latch_quiet u now)).trans (quiet_io)
  split
  · exact ⟨u,hu,rfl,.moved (Moves.refl u) rfl⟩
  next hc =>
    simp only [Bool.or_eq_true,decide_eq_true_eq,not_or,not_le,Bool.not_eq_true,Bool.not_eq_false'] at hc
    refine ⟨v',hv',rfl,?_⟩
    split
    next hlt =>
      have hmm := hq.first_mem hc.1.2 hc.2 hlt
      obtain ⟨hx,hu⟩ := hq.threaded.kept.used_of_mem hc.1.2 hmm
      have hr : Swept cfg v' (releasePending cfg v' (w.neighbor i).pendingHead) :=
        @Swept.released cfg v' v' _ (releasePending cfg v' (w.neighbor i).pendingHead).io (Moves.refl v') hx hu rfl
      exact hr.withIo rfl
    next hge =>
      obtain ⟨hm,hio,-⟩ := freeNeighbor_spec ((Move.quiet hv').tabled ht) hc.1.2 hc.2 (not_lt.1 hge)
      have hf : Swept cfg v' (freeNeighbor cfg v' i) := .moved hm (by rw [hio])
      exact hf.withIo rfl

section Accounts

variable (cfg)

/-- The frames queued for a neighbor, by row; a free neighbor has none. -/
def Work.line (w : Work) (i : ℕ) : List ℕ :=
  if w.live i then walk w.pendingNext cfg.nd6Pending cfg.nd6Pending (w.first i) else []

def Work.frames (w : Work) (rows : List ℕ) : List Frame := rows.map fun p => (w.pending p).frame

def Work.stock (w : Work) : List Frame :=
  (List.range cfg.nd6Pending).filterMap fun p => if (w.pending p).used then some (w.pending p).frame else none

/-- The frame a call accepts. -/
def accepted (w : Work) : Call → List Frame
  | .pendingPush a => if (pendingPush cfg w a).io.status=.ok then [a.frame] else []
  | _ => []

/-- The frame a call accepts for a neighbor. -/
def acceptedFor (i : ℕ) (w : Work) : Call → List Frame
  | .pendingPush a => if (pendingPush cfg w a).io.status=.ok ∧ a.neighbor=i then [a.frame] else []
  | _ => []

/-- A frame that is in the operand block, if it has a length. -/
def Io.reported (io : Io) : List Frame := if io.len≠0 then [io.frame] else []

/-- The frame a call reports back. -/
def handed (w : Work) : Call → List Frame
  | .pendingPush a => (pendingPush cfg w a).io.reported
  | .pendingPop neighbor nowMs => (pendingPop cfg w neighbor nowMs).io.reported
  | .neighborRemove index nowMs => (neighborRemove cfg w index nowMs).io.reported
  | .tick nowMs rand => (tick cfg w nowMs rand).io.reported
  | _ => []

/-- The frame taken from the queue of a neighbor. -/
def popped (i : ℕ) (w : Work) : Call → List Frame
  | .pendingPop neighbor nowMs => if neighbor=i then (pendingPop cfg w neighbor nowMs).io.reported else []
  | _ => []

/-- What one call does to the frames. -/
structure Passed (w : Work) (c : Call) (lists lists' : ℕ → List ℕ) : Prop where
  tabled : Tabled cfg (step cfg w c)
  queued : Queued cfg (step cfg w c) lists'
  stock : ((step cfg w c).stock cfg++handed cfg w c).Perm (w.stock cfg++accepted cfg w c)
  order : ∀ i < cfg.nd6Neighbors,
    (popped cfg i w c++(step cfg w c).frames (lists' i)).Sublist (w.frames (lists i)++acceptedFor cfg i w c)

end Accounts

theorem Queued.line (h : Queued cfg w lists) {i : ℕ} (hi : i < cfg.nd6Neighbors) : w.line cfg i=lists i := by
  unfold Work.line
  split
  next hu => exact h.threaded.walk (pending_le_none cfg) hi hu
  next hf => exact (h.threaded.free i hi (Bool.eq_false_iff.2 hf)).symm

theorem Moves.passed {c : Call} (hm : Moves cfg Kind.any w (step cfg w c)) (ht : Tabled cfg w) (hq : Queued cfg w lists)
    (hin : accepted cfg w c=[]) (ho : handed cfg w c=[]) (hp : ∀ i,popped cfg i w c=[]) : Passed cfg w c lists lists := by
  have hr := hm.pending
  refine ⟨hm.tabled ht,hm.queued hq,?_,fun i _ => ?_⟩
  · rw [hin,ho,stock,hr]
    exact .refl _
  · rw [hp,nil_append,frames,hr]
    exact sublist_append_left _ _

/-- A frame is held in one of two tables and not in the other, and the others are the same. -/
theorem stock_take {x : ℕ} (hx : x < cfg.nd6Pending) (hg : (u.pending x).used=false) (hh : (w.pending x).used)
    (hs : ∀ k,k≠x → (u.pending k).used=(w.pending k).used ∧ (u.pending k).frame=(w.pending k).frame) :
    (w.stock cfg).Perm ((w.pending x).frame::u.stock cfg) := by
  refine filterMap_range_insert hx (if_pos hh) (if_neg (by rw [hg]; exact Bool.false_ne_true)) fun k hk => ?_
  rw [(hs k hk).1,(hs k hk).2]

theorem frames_congr {rows : List ℕ} (h : ∀ p∈rows,(u.pending p).frame=(w.pending p).frame) : u.frames rows=w.frames rows :=
  map_congr_left h

section Released

variable {i x : ℕ}

theorem Released.stock (h : Released cfg w u lists i x) (hq : Queued cfg w lists) (hi : i < cfg.nd6Neighbors) (hx : x∈lists i) :
    (w.stock cfg).Perm ((w.pending x).frame::u.stock cfg) := by
  obtain ⟨hlt,hu⟩ := hq.threaded.kept.used_of_mem hi hx
  exact stock_take hlt h.gone hu h.others

theorem Released.frames (h : Released cfg w u lists i x) (hq : Queued cfg w lists) (hi : i < cfg.nd6Neighbors) (hx : x∈lists i)
    {k : ℕ} (hk : k < cfg.nd6Neighbors) : (u.frames (update lists i ((lists i).erase x) k)).Sublist (w.frames (lists k)) := by
  by_cases hki : k=i
  · rw [hki,update_self]
    rw [frames_congr fun p hp => (h.others p fun hpx => ?_).2]
    · exact erase_sublist.map _
    · rw [hpx,(hq.threaded.kept.nodup_row hi).mem_erase_iff] at hp
      exact hp.1 rfl
  · rw [update_of_ne hki]
    rw [frames_congr fun p hp => (h.others p fun hpx => hki (hq.threaded.kept.row_unique hk hi hp (hpx ▸ hx))).2]

theorem Released.withIo (h : Released cfg w u lists i x) {io : Io} (hio : io.frame=u.io.frame) :
    Released cfg w {u with io := io} lists i x :=
  ⟨⟨h.queued.threaded,h.queued.named,h.queued.len⟩,
    ⟨h.apart.used,h.apart.addr,h.apart.flag,h.apart.destination,h.apart.router,h.apart.prefixes,h.apart.counts⟩,h.gone,h.others,
    h.nowMs,hio.trans h.reported⟩

theorem Released.passed {c : Call} (hm : Moves cfg Kind.any w u) (ht : Tabled cfg w) (hq : Queued cfg w lists)
    (hi : i < cfg.nd6Neighbors) (hx : x∈lists i) (h : Released cfg u (step cfg w c) lists i x) (hin : accepted cfg w c=[])
    (ho : handed cfg w c=(step cfg w c).io.reported)
    (hpp : ∀ k,popped cfg k w c=[] ∨ (k=i ∧ w.first i=x ∧ w.live i ∧ popped cfg k w c=handed cfg w c)) :
    Passed cfg w c lists (update lists i ((lists i).erase x)) := by
  have hr := hm.pending
  have hqu := hm.queued hq
  have hu := (hq.threaded.kept.used_of_mem hi hx).2
  have hrp : handed cfg w c=[(w.pending x).frame] := by
    have hf : (step cfg w c).io.frame=(w.pending x).frame := by rw [h.reported,hr]
    have hl : (step cfg w c).io.len≠0 := by
      have hne := hq.len x hu
      rw [←hf] at hne
      exact hne
    rw [ho,Io.reported,if_pos hl,hf]
  have hfr : ∀ rows,u.frames rows=w.frames rows := fun rows => frames_congr fun p _ => by rw [hr]
  refine ⟨h.apart.tabled (hm.tabled ht),h.queued,?_,fun k hk => ?_⟩
  · have hs := h.stock hqu hi hx
    have hsm : u.stock cfg=w.stock cfg := by rw [Work.stock,hr,Work.stock]
    rw [hsm,hr] at hs
    rw [hin,hrp,append_nil]
    exact (perm_append_singleton _ _).trans hs.symm
  · have hsb := h.frames hqu hi hx hk
    rw [hfr] at hsb
    refine List.Sublist.trans ?_ (sublist_append_left _ _)
    rcases hpp k with hn|⟨rfl,hfi,hlv,hpp⟩
    · rw [hn]
      exact hsb
    -- the frame taken is the first, so that the queue is it and what is left
    have hc := hq.threaded.chain k hi hlv
    obtain ⟨rest,hls⟩ := Chain.split_head hc (hfi.symm ▸ hx)
    rw [hfi] at hls
    have hnd := hq.threaded.kept.nodup_row hi
    rw [hls] at hnd
    rw [hpp,hrp,update_self,hls,erase_cons_head]
    have hrs : (step cfg w c).frames rest=w.frames rest := (frames_congr fun p hp => (h.others p fun hpx =>
      (nodup_cons.1 hnd).1 (hpx ▸ hp)).2).trans (hfr rest)
    rw [hrs]
    exact List.Sublist.refl _

end Released

section Pushed

variable {x : ℕ} {a : PendingArgs}

theorem Pushed.stock (h : Pushed cfg w u lists x a) (hx : x < cfg.nd6Pending) (hf : w.holds x=false) :
    (u.stock cfg).Perm (a.frame::w.stock cfg) := by
  have hs := stock_take hx hf h.taken.1 fun k hk => ⟨(h.others k hk).1.symm,(h.others k hk).2.symm⟩
  rwa [h.taken.2] at hs

theorem Pushed.frames (h : Pushed cfg w u lists x a) (hq : Queued cfg w lists) (hf : w.holds x=false) {k : ℕ}
    (hk : k < cfg.nd6Neighbors) : u.frames (update lists a.neighbor (lists a.neighbor++[x]) k)=
      w.frames (lists k)++if a.neighbor=k then [a.frame] else [] := by
  have hs : u.frames (lists k)=w.frames (lists k) := frames_congr fun p hp => (h.others p (by
    rintro rfl
    have hu := (hq.threaded.kept.used_of_mem hk hp).2
    rw [hf] at hu
    cases hu)).2
  by_cases hka : k=a.neighbor
  · rw [if_pos hka.symm,←hka,update_self,←hs]
    simp [Work.frames,h.taken.2]
  · rw [if_neg (Ne.symm hka),update_of_ne hka,hs,append_nil]

end Pushed

theorem Io.reported_nil {io : Io} (h : io.len=0) : io.reported=[] := if_neg (not_not.2 h)

theorem pendingPop_spec (w : Work) (i : ℕ) (now : BitVec 32) :
    (Quiet w (pendingPop cfg w i now) ∧ (pendingPop cfg w i now).io.len=0) ∨
    ∃ u io,Quiet w u ∧ i < cfg.nd6Neighbors ∧ w.live i ∧ w.first i < cfg.nd6Pending ∧
      io.frame=(releasePending cfg u (w.first i)).io.frame ∧
      pendingPop cfg w i now={releasePending cfg u (w.first i) with io := io} := by
  unfold pendingPop
  extract_lets io u
  have hu : Quiet w u := quiet_io
  split
  · exact .inl ⟨hu,rfl⟩
  next hc =>
    simp only [Bool.or_eq_true,decide_eq_true_eq,not_or,not_le,Bool.not_eq_true,Bool.not_eq_false'] at hc
    exact .inr ⟨u.latch now,((releasePending cfg (u.latch now) (w.first i)).status .ok).io,
      hu.trans (latch_quiet u now),hc.1.1.2,hc.1.2,hc.2,rfl,rfl⟩

theorem pendingPop_passed (ht : Tabled cfg w) (hq : Queued cfg w lists) {i : ℕ} {now : BitVec 32} :
    ∃ lists',Passed cfg w (.pendingPop i now) lists lists' := by
  rcases @pendingPop_spec cfg w i now with ⟨hqt,hln⟩|⟨u,io,hqt,hi,hl,hlt,hio,heq⟩
  · have hn : handed cfg w (.pendingPop i now)=[] := Io.reported_nil hln
    refine ⟨lists,Moves.passed (c := .pendingPop i now) (hqt.moves rfl) ht hq rfl hn fun k => ?_⟩
    dsimp only [popped]
    split
    · exact hn
    · rfl
  have hm := hq.first_mem hi hl hlt
  have hr := (releasePending_spec ((Move.quiet hqt).queued hq) hi hm).withIo hio
  rw [←heq] at hr
  refine ⟨_,Released.passed (c := .pendingPop i now) (hqt.moves rfl) ht hq hi hm hr rfl rfl fun k => ?_⟩
  by_cases hk : i=k
  · exact .inr ⟨hk.symm,rfl,hl,if_pos hk⟩
  · exact .inl (if_neg hk)

theorem Swept.passed {c : Call} (hqt : Quiet w u) (hz : u.io.len=0) (hs : Swept cfg u (step cfg w c))
    (ht : Tabled cfg w) (hq : Queued cfg w lists) (hin : accepted cfg w c=[])
    (ho : handed cfg w c=(step cfg w c).io.reported) (hp : ∀ i,popped cfg i w c=[]) :
    ∃ lists',Passed cfg w c lists lists' := by
  have hst : Moves cfg Kind.any w u := hqt.moves rfl
  generalize hn : step cfg w c=v at hs
  cases hs with
  | moved hm hl =>
    have ha : Moves cfg Kind.any w (step cfg w c) := by
      rw [hn]
      exact hst.trans (hm.mono fun _ _ => rfl)
    refine ⟨lists,ha.passed ht hq hin ?_ hp⟩
    rw [ho,hn]
    exact Io.reported_nil (hl.trans hz)
  | @released t x io hm hx hu hio =>
    have ha : Moves cfg Kind.any w t := hst.trans (hm.mono fun _ _ => rfl)
    obtain ⟨i,hi,hmm⟩ := (ha.queued hq).listed hx hu
    have hr := (releasePending_spec (ha.queued hq) hi hmm).withIo hio
    rw [←hn] at hr
    exact ⟨_,Released.passed ha ht hq hi hmm hr hin ho fun k => .inl (hp k)⟩

/-- A frame is refused, or put into a row that is free or that the first frame of its neighbor is released from. -/
theorem pendingPush_spec (w : Work) (a : PendingArgs) :
    (Quiet w (pendingPush cfg w a) ∧ (pendingPush cfg w a).io.len=0 ∧ (pendingPush cfg w a).io.status≠.ok) ∨
    ∃ u x,Quiet w u ∧ u.io.len=0 ∧ a.neighbor < cfg.nd6Neighbors ∧ w.live a.neighbor ∧ a.len≠0 ∧ x < cfg.nd6Pending ∧
      ((u.holds x=false ∧ pendingPush cfg w a=pushPending cfg u x a) ∨
        (x=w.first a.neighbor ∧ pendingPush cfg w a=pushPending cfg (releasePending cfg u x) x a)) := by
  unfold pendingPush
  extract_lets io u v x
  have hu : Quiet w u := quiet_io
  have hv : Quiet w v := hu.trans (latch_quiet u a.nowMs)
  split
  · exact .inl ⟨hu,rfl,by simp [u]⟩
  next hc =>
    simp only [Bool.or_eq_true,decide_eq_true_eq,not_or,not_le,Bool.not_eq_true,Bool.not_eq_false',beq_iff_eq] at hc
    split
    next y hy =>
      obtain ⟨hf,hlt,-⟩ := firstIndex_some.1 hy
      exact .inr ⟨v,y,hv,rfl,hc.1.1.2,hc.2,hc.1.2,hlt,.inl ⟨by simpa [holds] using hf,rfl⟩⟩
    next =>
      split
      · exact .inl ⟨hv.trans (quiet_io),rfl,by simp [status]⟩
      next hlt => exact .inr ⟨v,x,hv,rfl,hc.1.1.2,hc.2,hc.1.2,not_le.1 hlt,.inr ⟨rfl,rfl⟩⟩

theorem acceptedFor_push {a : PendingArgs} (h : (pendingPush cfg w a).io.status=.ok) (i : ℕ) :
    acceptedFor cfg i w (.pendingPush a)=if a.neighbor=i then [a.frame] else [] := by
  simp only [acceptedFor,h,true_and]

theorem pendingPush_passed (ht : Tabled cfg w) (hq : Queued cfg w lists) (a : PendingArgs) :
    ∃ lists',Passed cfg w (.pendingPush a) lists lists' := by
  rcases @pendingPush_spec cfg w a with ⟨hqt,hln,hst⟩|⟨u,x,hqt,hz,hi,hlv,hln,hx,hc⟩
  · exact ⟨lists,Moves.passed (c := .pendingPush a) (hqt.moves rfl) ht hq (if_neg hst) (Io.reported_nil hln) fun _ => rfl⟩
  have hm : Move cfg .quiet w u := .quiet hqt
  have hqu := hm.queued hq
  have htu := hm.tabled ht
  have hrw : u.pending=w.pending := hqt.pending
  have hs : u.stock cfg=w.stock cfg := by rw [stock,hrw,stock]
  have hframes : ∀ rows,u.frames rows=w.frames rows := fun rows => frames_congr fun p _ => by rw [hrw]
  have hl : u.live a.neighbor := (hqt.used a.neighbor).trans hlv
  rcases hc with ⟨hfr,heq⟩|⟨hfi,heq⟩
  · have hps := pushPending_spec hqu hi hl hln hx hfr
    rw [←heq] at hps
    have hin : accepted cfg w (.pendingPush a)=[a.frame] := if_pos hps.status
    have ho : handed cfg w (.pendingPush a)=[] := Io.reported_nil (by
      have hf := congrArg Frame.len hps.reported
      exact hf.trans hz)
    refine ⟨_,hps.apart.tabled htu,hps.queued,?_,fun k hk => ?_⟩
    · have hp := hps.stock hx hfr
      rw [hs] at hp
      rw [hin,ho,append_nil]
      exact hp.trans (perm_append_singleton _ _).symm
    · rw [acceptedFor_push hps.status]
      show ((pendingPush cfg w a).frames _).Sublist _
      rw [hps.frames hqu hfr hk,hframes]
  have hmm : x∈lists a.neighbor := by
    rw [hfi]
    exact hq.first_mem hi hlv (hfi ▸ hx)
  have hrl := releasePending_spec hqu hi hmm
  have hfr : (releasePending cfg u x).holds x=false := hrl.gone
  have hli : (releasePending cfg u x).live a.neighbor := (hrl.apart.used a.neighbor).trans hl
  have hps := pushPending_spec hrl.queued hi hli hln hx hfr
  rw [←heq] at hps
  have hin : accepted cfg w (.pendingPush a)=[a.frame] := if_pos hps.status
  have hframe : (pendingPush cfg w a).io.frame=(w.pending x).frame := by rw [hps.reported,hrl.reported,hrw]
  have ho : handed cfg w (.pendingPush a)=[(w.pending x).frame] := by
    have hne := hq.len x (hq.threaded.kept.used_of_mem hi hmm).2
    rw [←hframe] at hne ⊢
    exact if_pos hne
  refine ⟨_,hps.apart.tabled (hrl.apart.tabled htu),hps.queued,?_,fun k hk => ?_⟩
  · have hp := hps.stock hx hfr
    have hr := hrl.stock hqu hi hmm
    rw [hs,hrw] at hr
    rw [hin,ho]
    have hb := ((perm_append_singleton _ _).trans hr.symm).cons a.frame
    exact (hp.append_right [(w.pending x).frame]).trans (hb.trans (perm_append_singleton _ _).symm)
  · rw [acceptedFor_push hps.status]
    show ((pendingPush cfg w a).frames _).Sublist _
    rw [hps.frames hrl.queued hfr hk]
    have hsb := hrl.frames hqu hi hmm hk
    rw [hframes] at hsb
    exact hsb.append_right _

theorem step_passed (ht : Tabled cfg w) (hq : Queued cfg w lists) (c : Call) : ∃ lists',Passed cfg w c lists lists' := by
  have hqt : ∀ {c},Quiet w (step cfg w c) → accepted cfg w c=[] → handed cfg w c=[] → (∀ i,popped cfg i w c=[]) →
      ∃ lists',Passed cfg w c lists lists' :=
    fun hc hin ho hp => ⟨lists,Moves.passed (hc.moves rfl) ht hq hin ho hp⟩
  have hm : ∀ {ok : Kind → Bool} {c},Moves cfg ok w (step cfg w c) → accepted cfg w c=[] → handed cfg w c=[] →
      (∀ i,popped cfg i w c=[]) → ∃ lists',Passed cfg w c lists lists' :=
    fun hc hin ho hp => ⟨lists,Moves.passed (hc.mono fun _ _ => rfl) ht hq hin ho hp⟩
  cases c with
  | neighborFind a => exact hqt (neighborFind_quiet) rfl rfl fun _ => rfl
  | neighborSet a => exact hm (neighborSet_moves ht a) rfl rfl fun _ => rfl
  | neighborConfirm i nowMs => exact hqt (neighborConfirm_quiet w i nowMs) rfl rfl fun _ => rfl
  | neighborUsed i nowMs => exact hqt (neighborUsed_quiet w i nowMs) rfl rfl fun _ => rfl
  | neighborRemove i nowMs =>
    obtain ⟨u,hu,hz,hs⟩ := neighborRemove_swept ht hq i nowMs
    exact Swept.passed (c := .neighborRemove i nowMs) hu hz hs ht hq rfl rfl fun _ => rfl
  | destFind a => exact hqt (destFind_quiet) rfl rfl fun _ => rfl
  | destSet a => exact hm (destSet_moves) rfl rfl fun _ => rfl
  | prefixSet a => exact hm (prefixSet_moves) rfl rfl fun _ => rfl
  | prefixOnLink a => exact hqt (prefixOnLink_quiet) rfl rfl fun _ => rfl
  | routerSet a => exact hm (routerSet_moves) rfl rfl fun _ => rfl
  | routerSelect nowMs => exact hqt (routerSelect_quiet) rfl rfl fun _ => rfl
  | pendingPush a => exact pendingPush_passed ht hq a
  | pendingPop i nowMs => exact pendingPop_passed ht hq
  | paramsSet a => exact hqt (paramsSet_quiet) rfl rfl fun _ => rfl
  | tick nowMs rand =>
    obtain ⟨u,hu,hz,hs⟩ := tick_swept ht hq nowMs rand
    exact Swept.passed (c := .tick nowMs rand) hu hz hs ht hq rfl rfl fun _ => rfl

variable (cfg)

/-- What holds of the tables between calls. -/
structure Sound (w : Work) : Prop extends Tabled cfg w where
  /-- The queue of a neighbor ends, and meets no frame twice. -/
  queue : ∀ i < cfg.nd6Neighbors,(w.neighbor i).used →
    Chain w.pendingNext cfg.nd6Pending none8 (w.neighbor i).pendingHead (w.line cfg i) ∧ (w.line cfg i).Nodup
  /-- What stands on it is in use and names the neighbor. -/
  queued : ∀ i < cfg.nd6Neighbors,∀ p∈w.line cfg i,p < cfg.nd6Pending ∧ (w.pending p).used ∧ (w.pending p).neighbor=i
  /-- A frame in use stands on the queue of the neighbor it names, which is in use. -/
  pending : ∀ p < cfg.nd6Pending,(w.pending p).used →
    (w.pending p).neighbor < cfg.nd6Neighbors ∧ (w.neighbor (w.pending p).neighbor).used ∧
      p∈w.line cfg (w.pending p).neighbor
  pendings : w.ctx.pendings=(List.range cfg.nd6Pending).countP fun p => (w.pending p).used

variable {cfg}

theorem Queued.sound (hq : Queued cfg w lists) (ht : Tabled cfg w) : Sound cfg w := by
  refine ⟨ht,fun i hi hu => ?_,fun i hi p hp => ?_,fun p hp hu => ?_,hq.threaded.kept.count_eq_countP⟩
  · rw [hq.line hi]
    exact ⟨hq.threaded.chain i hi hu,hq.threaded.kept.nodup_row hi⟩
  · rw [hq.line hi] at hp
    have hin := hq.threaded.kept.used_of_mem hi hp
    exact ⟨hin.1,hin.2,hq.named i hi p hp⟩
  · obtain ⟨i,hi,hm⟩ := hq.listed hp hu
    have hn := hq.named i hi p hm
    rw [hn,hq.line hi]
    refine ⟨hi,?_,hm⟩
    rw [←Bool.not_eq_false]
    intro hf
    rw [hq.threaded.free i hi hf] at hm
    cases hm

theorem clear_tabled {w : Work} : Tabled cfg (clear w) := by
  refine ⟨fun i _ j _ hu => ?_,fun r _ hu => ?_,fun r _ s _ hu => ?_,?_,?_,?_,?_⟩
  · cases hu
  · cases hu
  · cases hu
  all_goals exact (countP_eq_zero.2 fun _ _ => Bool.false_ne_true).symm

theorem clear_queued (w : Work) : Queued cfg (clear w) fun _ => [] := by
  refine ⟨⟨Kept.empty fun _ _ => rfl,fun i _ hu => ?_,fun _ _ _ => rfl⟩,fun i _ p hp => ?_,fun p hp => ?_⟩
  · cases hu
  · cases hp
  · cases hp

/-- In every run the tables are sound, frames accepted are those held and reported, and queues keep their order. -/
theorem run_sound (cfg : Config) (w : Work) (cs : List Call) : Sound cfg (run (step cfg) (clear w) cs) ∧
    ((run (step cfg) (clear w) cs).stock cfg++outputs (step cfg) (handed cfg) (clear w) cs).Perm
      (outputs (step cfg) (accepted cfg) (clear w) cs) ∧
    ∀ i < cfg.nd6Neighbors,(outputs (step cfg) (popped cfg i) (clear w) cs++
        (run (step cfg) (clear w) cs).frames ((run (step cfg) (clear w) cs).line cfg i)).Sublist
        (outputs (step cfg) (acceptedFor cfg i) (clear w) cs) := by
  have hkeep : ∀ (w : Work) (c : Call),(Tabled cfg w ∧ ∃ lists,Queued cfg w lists) →
      Tabled cfg (step cfg w c) ∧ ∃ lists,Queued cfg (step cfg w c) lists := by
    rintro w c ⟨ht,lists,hq⟩
    obtain ⟨lists',hp⟩ := step_passed ht hq c
    exact ⟨hp.tabled,lists',hp.queued⟩
  have hstart : Tabled cfg (clear w) ∧ ∃ lists,Queued cfg (clear w) lists := ⟨clear_tabled,_,clear_queued w⟩
  have hempty : (clear w).stock cfg=[] := by simp [stock,clear,Pending.zero]
  have hstock := run_inventory hkeep (stock cfg) (fun w c h => by
    obtain ⟨ht,lists,hq⟩ := h
    obtain ⟨lists',hp⟩ := step_passed ht hq c
    exact hp.stock) hstart cs
  rw [hempty,nil_append] at hstock
  have hrun : Tabled cfg (run (step cfg) (clear w) cs) ∧ ∃ lists,Queued cfg (run (step cfg) (clear w) cs) lists :=
    run_always hkeep hstart
  obtain ⟨ht,lists,hq⟩ := hrun
  refine ⟨hq.sound ht,hstock,fun i hi => ?_⟩
  have hstep : ∀ (w : Work) (c : Call),(Tabled cfg w ∧ ∃ lists,Queued cfg w lists) →
      (popped cfg i w c++(step cfg w c).frames ((step cfg w c).line cfg i)).Sublist
        (w.frames (w.line cfg i)++acceptedFor cfg i w c) := by
    rintro w c ⟨ht,lists,hq⟩
    obtain ⟨lists',hp⟩ := step_passed ht hq c
    rw [hp.queued.line hi,hq.line hi]
    exact hp.order i hi
  have horder := run_order hkeep (fun w => w.frames (w.line cfg i)) hstep hstart cs
  have hnone : (clear w).frames ((clear w).line cfg i)=[] := by
    rw [(clear_queued w).line hi]
    rfl
  rwa [hnone,nil_append] at horder

end Runs

end IdemIp.Nd6
