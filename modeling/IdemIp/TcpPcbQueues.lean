import IdemIp.TcpPcbEffects

/-!
# The queues of a connection

Abstractly a connection owns two lists of send segments and one of held
segments. The tables represent them when each list is a chain over the links,
its members are the rows in use for the connection, and every row in use
belongs to a connection in use.
-/

namespace IdemIp.TcpPcb

open IndexChain StepRun List Tables Function Nat

section Representation

variable (cfg : Config)

/-- A send segment in use for a connection. -/
def SegOwned (t : Tables) (p i : ℕ) : Prop := i < cfg.tcpSegs ∧ (t.seg i).inUse ∧ (t.seg i).pcb=p

/-- A held segment in use for a connection. -/
def OosOwned (t : Tables) (p i : ℕ) : Prop := i < cfg.tcpOoseqEntries ∧ (t.oos i).inUse ∧ (t.oos i).pcb=p

/-- The send queues of one connection are these lists. -/
structure SegQueues (t : Tables) (p : ℕ) (unsent unacked : List ℕ) : Prop where
  /-- The unsent queue is a list ending in the index that names none. -/
  unsent_chain : Chain t.segNext cfg.tcpSegs noneIndex (t.tcb p).unsent unsent
  unacked_chain : Chain t.segNext cfg.tcpSegs noneIndex (t.tcb p).unacked unacked
  /-- No segment is on both, or twice on one. -/
  nodup : (unacked++unsent).Nodup
  /-- Together they hold exactly the segments in use for the connection. -/
  mem : ∀ i,i∈unacked++unsent ↔ SegOwned cfg t p i

/-- The held queue of one connection is this list. -/
structure OosQueue (t : Tables) (p : ℕ) (ooseq : List ℕ) : Prop where
  /-- It is a list ending in the index that names none. -/
  chain : Chain t.oosNext cfg.tcpOoseqEntries noneIndex (t.tcb p).ooseq ooseq
  /-- It holds exactly the held segments in use for the connection. -/
  mem : ∀ i,i∈ooseq ↔ OosOwned cfg t p i
  /-- It is no longer than one connection may hold. -/
  length : ooseq.length ≤ cfg.tcpOoseqSegs

/-- Every connection in use has its send queues, and every segment its connection. -/
structure SegsOk (t : Tables) (unsent unacked : ℕ → List ℕ) : Prop where
  /-- The queues of a connection in use. -/
  queues : ∀ p < cfg.tcpPcbs,(t.tcb p).inUse → SegQueues cfg t p (unsent p) (unacked p)
  /-- The connection of a segment in use. -/
  owner : ∀ i < cfg.tcpSegs,(t.seg i).inUse → (t.seg i).pcb < cfg.tcpPcbs ∧ (t.tcb (t.seg i).pcb).inUse=true

/-- Every connection in use has its held queue, and every held segment its connection. -/
structure OosOk (t : Tables) (ooseq : ℕ → List ℕ) : Prop where
  /-- The queue of a connection in use. -/
  queues : ∀ p < cfg.tcpPcbs,(t.tcb p).inUse → OosQueue cfg t p (ooseq p)
  /-- The connection of a held segment in use. -/
  owner : ∀ i < cfg.tcpOoseqEntries,(t.oos i).inUse → (t.oos i).pcb < cfg.tcpPcbs ∧ (t.tcb (t.oos i).pcb).inUse=true

end Representation

section Frames

variable {cfg : Config} {t u : Tables} {p : ℕ}

theorem segs_le_none : cfg.tcpSegs≤noneIndex := cfg.tcpSegs_lt.le

theorem ooseq_le_none : cfg.tcpOoseqEntries≤noneIndex := cfg.tcpOoseqEntries_lt.le

variable {l m : List ℕ}

/-- A row that stays with one connection, or stays, is another's as it was. -/
theorem row_elsewhere {ρ : Type} (used : ρ → Bool) (pcb : ρ → ℕ) {x y : ρ} {q : ℕ} (hq : q≠p)
    (hr : y=x ∨ (used x → pcb x=p) ∧ (used y → pcb y=p)) :
    (used y ∧ pcb y=q ↔ used x ∧ pcb x=q) ∧ (used x ∧ pcb x=q → y=x) := by
  rcases hr with rfl|⟨hx,hy⟩
  · exact ⟨Iff.rfl,fun _ => rfl⟩
  have hne : ¬(used x ∧ pcb x=q) := fun h => hq (h.2.symm.trans (hx h.1))
  exact ⟨iff_of_false (fun h => hq (h.2.symm.trans (hy h.1))) hne,fun h => absurd h hne⟩

theorem SegQueues.frame (h : SegQueues cfg t p l m)
    (hu : (u.tcb p).unsent=(t.tcb p).unsent) (ha : (u.tcb p).unacked=(t.tcb p).unacked)
    (ho : ∀ i,SegOwned cfg u p i ↔ SegOwned cfg t p i)
    (hn : ∀ i,SegOwned cfg t p i → u.segNext i=t.segNext i) : SegQueues cfg u p l m := by
  have hl : ∀ i∈l,u.segNext i=t.segNext i := fun i hi =>
    hn i ((h.mem i).mp (mem_append_right m hi))
  have hm : ∀ i∈m,u.segNext i=t.segNext i := fun i hi =>
    hn i ((h.mem i).mp (mem_append_left l hi))
  refine ⟨?_,?_,h.nodup,fun i => (h.mem i).trans (ho i).symm⟩
  · rw [hu]
    exact Path.congr h.unsent_chain hl
  · rw [ha]
    exact Path.congr h.unacked_chain hm

/-- The held queue depends on its head and on the rows the connection owns. -/
theorem OosQueue.frame (h : OosQueue cfg t p l) (hu : (u.tcb p).ooseq=(t.tcb p).ooseq)
    (ho : ∀ i,OosOwned cfg u p i ↔ OosOwned cfg t p i)
    (hn : ∀ i,OosOwned cfg t p i → u.oosNext i=t.oosNext i) : OosQueue cfg u p l := by
  refine ⟨?_,fun i => (h.mem i).trans (ho i).symm,h.length⟩
  rw [hu]
  exact Path.congr h.chain fun i hi => hn i ((h.mem i).mp hi)

theorem SegsOk.frame {un ua : ℕ → List ℕ} (h : SegsOk cfg t un ua) (hs : u.seg=t.seg)
    (hus : ∀ p,(u.tcb p).inUse=(t.tcb p).inUse) (hu : ∀ p,(u.tcb p).unsent=(t.tcb p).unsent)
    (ha : ∀ p,(u.tcb p).unacked=(t.tcb p).unacked) : SegsOk cfg u un ua := by
  have hn : u.segNext=t.segNext := by unfold segNext; rw [hs]
  refine ⟨fun p hp hin => ?_,fun i hi hin => ?_⟩
  · rw [hus] at hin
    refine (h.queues p hp hin).frame (hu p) (ha p) (fun i => ?_) fun i _ => by rw [hn]
    unfold SegOwned
    rw [hs]
  · rw [hs] at hin ⊢
    rw [hus]
    exact h.owner i hi hin

theorem OosOk.frame {oo : ℕ → List ℕ} (h : OosOk cfg t oo) (ho : u.oos=t.oos)
    (hus : ∀ p,(u.tcb p).inUse=(t.tcb p).inUse) (hu : ∀ p,(u.tcb p).ooseq=(t.tcb p).ooseq) : OosOk cfg u oo := by
  have hn : u.oosNext=t.oosNext := by unfold oosNext; rw [ho]
  refine ⟨fun p hp hin => ?_,fun i hi hin => ?_⟩
  · rw [hus] at hin
    refine (h.queues p hp hin).frame (hu p) (fun i => ?_) fun i _ => by rw [hn]
    unfold OosOwned
    rw [ho]
  · rw [ho] at hin ⊢
    rw [hus]
    exact h.owner i hi hin

/-- Tables with the same rows in both shared tables and the same use and heads of every connection. -/
structure SameQueues (t u : Tables) : Prop where
  seg : u.seg=t.seg
  oos : u.oos=t.oos
  inUse : ∀ p,(u.tcb p).inUse=(t.tcb p).inUse
  unsent : ∀ p,(u.tcb p).unsent=(t.tcb p).unsent
  unacked : ∀ p,(u.tcb p).unacked=(t.tcb p).unacked
  ooseq : ∀ p,(u.tcb p).ooseq=(t.tcb p).ooseq

/-- Tables with the same send segments and the same use and send heads of every connection. -/
structure SameSends (t u : Tables) : Prop where
  seg : u.seg=t.seg
  inUse : ∀ p,(u.tcb p).inUse=(t.tcb p).inUse
  unsent : ∀ p,(u.tcb p).unsent=(t.tcb p).unsent
  unacked : ∀ p,(u.tcb p).unacked=(t.tcb p).unacked

theorem SameQueues.of_eq (h : u=t) : SameQueues t u := by
  subst h
  exact ⟨rfl,rfl,fun _ => rfl,fun _ => rfl,fun _ => rfl,fun _ => rfl⟩

theorem SameQueues.setTcb {x : Tcb} (hin : x.inUse=(t.tcb p).inUse) (hu : x.unsent=(t.tcb p).unsent)
    (ha : x.unacked=(t.tcb p).unacked) (ho : x.ooseq=(t.tcb p).ooseq) : SameQueues t (t.setTcb p x) := by
  exact ⟨rfl,rfl,t.setTcb_keeps p Tcb.inUse hin,t.setTcb_keeps p Tcb.unsent hu,t.setTcb_keeps p Tcb.unacked ha,
    t.setTcb_keeps p Tcb.ooseq ho⟩

theorem Renames.sameQueues (h : Renames cfg t u) : SameQueues t u := by
  rcases h with rfl|⟨i,x,-,-,hx,rfl⟩
  · exact .of_eq rfl
  · exact .setTcb hx.inUse hx.unsent hx.unacked hx.ooseq

theorem store_sameQueues (w : Work) (p : ℕ) : SameQueues w.tab (store cfg w p).tab := by
  rcases store_cases p with ⟨h,-⟩|⟨-,-,-,-,h⟩
  · exact .of_eq h
  · rw [h]
    exact .setTcb rfl rfl rfl rfl

theorem SameQueues.listeners {f : ℕ → Listener} (h : u={t with listener := f}) : SameQueues t u := by
  subst h
  exact ⟨rfl,rfl,fun _ => rfl,fun _ => rfl,fun _ => rfl,fun _ => rfl⟩

end Frames

section Segments

variable {cfg : Config} {t u : Tables} {p i : ℕ} {unsent unacked : ℕ → List ℕ}

variable {l m : List ℕ}

variable (h : SegsOk cfg t unsent unacked)
include h

/-- A change confined to one connection's heads and rows only needs that connection's queues again. -/
theorem SegsOk.step (hp : p < cfg.tcpPcbs) (hin : (t.tcb p).inUse) (hus : ∀ q,(u.tcb q).inUse=(t.tcb q).inUse)
    (hh : ∀ q,q≠p → (u.tcb q).unsent=(t.tcb q).unsent ∧ (u.tcb q).unacked=(t.tcb q).unacked)
    (hr : ∀ i,u.seg i=t.seg i ∨ (((t.seg i).inUse → (t.seg i).pcb=p) ∧ ((u.seg i).inUse → (u.seg i).pcb=p)))
    (hq : SegQueues cfg u p l m) : SegsOk cfg u (update unsent p l) (update unacked p m) := by
  refine ⟨fun q hql hqn => ?_,fun j hj hjn => ?_⟩
  · by_cases hqp : q=p
    · subst hqp
      simpa using hq
    · rw [update_of_ne hqp,update_of_ne hqp]
      rw [hus] at hqn
      refine (h.queues q hql hqn).frame (hh q hqp).1 (hh q hqp).2 (fun j => ?_) fun j hj => ?_
      · exact and_congr_right fun _ => (row_elsewhere Seg.inUse Seg.pcb hqp (hr j)).1
      · unfold segNext
        rw [(row_elsewhere Seg.inUse Seg.pcb hqp (hr j)).2 hj.2]
  · rw [hus]
    rcases hr j with he|⟨-,hu⟩
    · rw [he] at hjn ⊢
      exact h.owner j hj hjn
    · rw [hu hjn]
      exact ⟨hp,hin⟩

theorem SegsOk.opened (hf : (t.tcb p).inUse=false) (v : ℕ) :
    SegsOk cfg (t.setTcb p (Tcb.opened cfg v)) (update unsent p []) (update unacked p []) := by
  refine ⟨fun q hq hin => ?_,fun i hi hin => ?_⟩
  · by_cases hqp : q=p
    · subst hqp
      refine ⟨?_,?_,by simp,fun i => ?_⟩
      · simp only [setTcb_tcb,if_true,update_self]
        exact Chain.nil
      · simp only [setTcb_tcb,if_true,update_self]
        exact Chain.nil
      · constructor
        · intro hi
          simp at hi
        · rintro ⟨hi,hin,how⟩
          have ho := (h.owner i hi hin).2
          rw [show (t.seg i).pcb=q from how,hf] at ho
          cases ho
    · rw [update_of_ne hqp,update_of_ne hqp]
      have hin' : (t.tcb q).inUse := by simpa [hqp] using hin
      exact (h.queues q hq hin').frame (by simp [hqp]) (by simp [hqp]) (fun i => Iff.rfl) fun i _ => rfl
  · have ho := h.owner i hi hin
    refine ⟨ho.1,?_⟩
    simp only [setTcb_seg,setTcb_tcb]
    split_ifs
    · rfl
    · exact ho.2

omit h in
theorem sendQueuesFree_seg (h : SegQueues cfg t p l m) :
    (sendQueuesFree cfg t p).seg=fun i => if i∈m++l then .zero else t.seg i := by
  have hf : wipe Seg.next cfg.tcpSegs .zero cfg.tcpSegs (t.tcb p).unsent t.seg=
      fun i => if i∈l then .zero else t.seg i :=
    wipe_chain segs_le_none h.unsent_chain (h.unsent_chain.length_le segs_le_none)
  have hd := (nodup_append.mp h.nodup).2.2
  have hs : Chain (fun i => ((queueFree cfg t (t.tcb p).unsent).seg i).next) cfg.tcpSegs noneIndex
      (t.tcb p).unacked m := by
    refine Path.congr h.unacked_chain fun i hi => ?_
    have hil : i∉l := fun hmm => hd i hi i hmm rfl
    unfold queueFree
    simp only [hf,if_neg hil]
    rfl
  have hb := wipe_chain (z := Seg.zero) segs_le_none hs (Chain.length_le segs_le_none hs)
  change wipe Seg.next cfg.tcpSegs .zero cfg.tcpSegs _ _=_
  rw [hb]
  funext i
  have hr : (queueFree cfg t (t.tcb p).unsent).seg i=if i∈l then .zero else t.seg i := congrFun hf i
  rw [hr]
  by_cases hm : i∈m <;> simp [hm]

theorem SegsOk.closed (hp : p < cfg.tcpPcbs) (hin : (t.tcb p).inUse) :
    SegsOk cfg ((sendQueuesFree cfg t p).setTcb p .zero) unsent unacked := by
  have hs := sendQueuesFree_seg (h.queues p hp hin)
  have ht : ∀ q,q≠p → ((sendQueuesFree cfg t p).setTcb p .zero).tcb q=t.tcb q := by
    intro q hqp
    unfold sendQueuesFree queueFree
    simp [hqp]
  have hmm := (h.queues p hp hin).mem
  refine ⟨fun q hq hqn => ?_,fun i hi hii => ?_⟩
  · have hqp : q≠p := by
      rintro rfl
      simp [Tcb.zero] at hqn
    rw [ht q hqp] at hqn
    have hr : ∀ i,(t.seg i).pcb=q → ((sendQueuesFree cfg t p).setTcb p .zero).seg i=t.seg i := by
      intro i hi
      have hn : i∉unacked p++unsent p := fun hm => hqp (hi.symm.trans ((hmm i).mp hm).2.2)
      simp only [setTcb_seg,hs]
      rw [if_neg hn]
    refine (h.queues q hq hqn).frame (by rw [ht q hqp]) (by rw [ht q hqp]) (fun i => ?_) fun i hi => ?_
    · constructor
      · rintro ⟨hi,hii,hiq⟩
        simp only [setTcb_seg,hs] at hii hiq
        split_ifs at hii hiq with hm
        · cases hii
        · exact ⟨hi,hii,hiq⟩
      · rintro ⟨hi,hii,hiq⟩
        refine ⟨hi,?_⟩
        rw [hr i hiq]
        exact ⟨hii,hiq⟩
    · unfold segNext
      rw [hr i hi.2.2]
  · simp only [setTcb_seg,hs] at hii ⊢
    split_ifs at hii ⊢ with hm
    · cases hii
    have ho := h.owner i hi hii
    have hne : (t.seg i).pcb≠p := fun he => hm ((hmm i).mpr ⟨hi,hii,he⟩)
    rw [ht _ hne]
    exact ho

omit h in
theorem Tables.linkSeg_next (t : Tables) (i n : ℕ) : (t.linkSeg i n).segNext=update t.segNext i n := by
  funext j
  rw [linkSeg_segNext,update_apply]

theorem SegsOk.appended (hp : p < cfg.tcpPcbs) (hin : (t.tcb p).inUse)
    (hi : i < cfg.tcpSegs) (hf : (t.seg i).inUse=false) {x : Seg} (hx : x.inUse) (hxp : x.pcb=p) (hxn : x.next=noneIndex) :
    SegsOk cfg (unsentAppend cfg (t.setSeg i x) p i) (update unsent p (unsent p++[i])) unacked := by
  have hq := h.queues p hp hin
  have hnt : i∉unacked p++unsent p := fun hm => by
    have ho := ((hq.mem i).mp hm).2.1
    rw [hf] at ho
    cases ho
  have hne : ∀ j∈unacked p++unsent p,j≠i := fun j hj he => hnt (he ▸ hj)
  have hn : (unacked p++(unsent p++[i])).Nodup := by
    rw [←append_assoc]
    exact nodup_append.mpr ⟨hq.nodup,by simp,fun a ha b hb => by
      rw [mem_singleton.mp hb]
      exact hne a ha⟩
  have hd := (nodup_append.mp hq.nodup).2.2
  have hl : ∀ j∈unacked p++unsent p,(t.setSeg i x).segNext j=t.segNext j := fun j hj => by
    simp [hne j hj]
  have hch : Chain (t.setSeg i x).segNext cfg.tcpSegs noneIndex ((t.setSeg i x).tcb p).unsent (unsent p) :=
    Path.congr hq.unsent_chain fun j hj => hl j (mem_append_right _ hj)
  have hun : Chain (t.setSeg i x).segNext cfg.tcpSegs noneIndex ((t.setSeg i x).tcb p).unacked (unacked p) :=
    Path.congr hq.unacked_chain fun j hj => hl j (mem_append_left _ hj)
  have ho : ∀ j,j∈unacked p++(unsent p++[i]) ↔ SegOwned cfg (t.setSeg i x) p j := by
    intro j
    rw [←append_assoc,mem_append,hq.mem,mem_singleton]
    unfold SegOwned
    by_cases hji : j=i
    · simp [hji,hx,hxp,hi]
    · simp [hji]
  have hr : ∀ j,(t.setSeg i x).seg j=t.seg j ∨ j=i := fun j => by
    by_cases hji : j=i
    · exact .inr hji
    · exact .inl (by simp [hji])
  have hnl : i∉unsent p := fun hm => hnt (mem_append_right _ hm)
  rw [←update_eq_self p unacked]
  unfold unsentAppend
  rcases hch.hang segs_le_none hi hnl (by simp [hxn]) with ⟨hle,he,hc⟩|⟨hlt,q,hql,ht,hc⟩
  · rw [if_pos hle]
    refine h.step hp hin (setTcb_keeps _ p Tcb.inUse rfl) (fun q hqp => by simp [hqp]) (fun j => ?_)
      ⟨by simpa [he] using hc,by simpa using hun,hn,ho⟩
    · rcases hr j with hj|rfl
      · exact .inl hj
      · exact .inr ⟨fun hu => by simp [hf] at hu,fun _ => by simpa using hxp⟩
  rw [←linkSeg_next] at hc
  rw [if_neg (not_le.mpr hlt),ht]
  refine h.step hp hin (fun q => rfl) (fun q _ => ⟨rfl,rfl⟩) (fun j => ?_)
    ⟨hc,?_,hn,fun j => (ho j).trans (by simp [SegOwned])⟩
  · by_cases hjq : j=q
    · subst hjq
      have hjw := (hq.mem j).mp (mem_append_right _ hql)
      refine .inr ⟨fun _ => hjw.2.2,fun _ => ?_⟩
      rw [(linkSeg_owner _ _ _ _).2,setSeg_seg,if_neg (hne j (mem_append_right _ hql))]
      exact hjw.2.2
    · rcases hr j with hj|rfl
      · exact .inl (by unfold linkSeg; rw [setSeg_seg,if_neg hjq]; exact hj)
      · exact .inr ⟨fun hu => by simp [hf] at hu,fun _ => by simp [hxp]⟩
  · refine Path.congr hun fun j hj => ?_
    have hjq : j≠q := fun he => hd j hj q hql he
    simp [hjq]

theorem SegsOk.sent (hi : i < cfg.tcpSegs) (hii : (t.seg i).inUse) (hown : (t.seg i).pcb=p) (hh : (t.tcb p).unsent=i) :
    ∃ rest u,unsent p=i::rest ∧ unackedAppend cfg (sentTables t i) p i=some u ∧
      SegsOk cfg u (update unsent p rest) (update unacked p (unacked p++[i])) := by
  obtain ⟨hp,hin⟩ := h.owner i hi hii
  rw [hown] at hp hin
  have hq := h.queues p hp hin
  have hmm : i∈unsent p := hh ▸ hq.unsent_chain.head_mem segs_le_none (hh.symm ▸ hi)
  obtain ⟨rest,hr⟩ := hq.unsent_chain.split_head (hh.symm ▸ hmm)
  rw [hh] at hr
  have hn : (unacked p++(i::rest)).Nodup := hr ▸ hq.nodup
  have hsp := nodup_append.mp hn
  have hnotU : i∉unacked p := fun hm => hsp.2.2 i hm i (by simp) rfl
  have hnotR : i∉rest := (nodup_cons.mp hsp.2.1).1
  have hs : sentTables t i=(t.setTcb p {t.tcb p with unsent := t.segNext i}).linkSeg i noneIndex := by
    unfold sentTables segNext
    rw [hown]
  have hus : ∀ q,((sentTables t i).tcb q).inUse=(t.tcb q).inUse := by
    rw [hs]
    exact t.setTcb_keeps p Tcb.inUse rfl
  have hl : ∀ j,j≠i → (sentTables t i).segNext j=t.segNext j := fun j hj => by simp [hs,hj]
  have hu : Chain (sentTables t i).segNext cfg.tcpSegs noneIndex ((sentTables t i).tcb p).unacked (unacked p) := by
    have hc : Chain (sentTables t i).segNext cfg.tcpSegs noneIndex (t.tcb p).unacked (unacked p) :=
      Path.congr hq.unacked_chain fun j hj => hl j fun he => hnotU (he ▸ hj)
    simpa [hs] using hc
  have hrs : Chain (sentTables t i).segNext cfg.tcpSegs noneIndex (t.segNext i) rest := by
    have hc := hq.unsent_chain
    rw [hr] at hc
    exact Path.congr hc.tail fun j hj => hl j fun he => hnotR (he ▸ hj)
  have ho : ∀ j,((sentTables t i).seg j).inUse=(t.seg j).inUse ∧
      ((sentTables t i).seg j).pcb=(t.seg j).pcb := fun j => by simp [hs]
  have hrw : ∀ j,j≠i → (sentTables t i).seg j=t.seg j := fun j hj => by
    rw [hs]
    unfold linkSeg
    simp [hj]
  have hpr : ∀ j,j∈unacked p++[i]++rest ↔ j∈unacked p++unsent p := fun j => by rw [hr]; simp
  have how : ∀ j,j∈unacked p++[i]++rest ↔ SegOwned cfg (sentTables t i) p j := fun j => by
    rw [hpr,hq.mem]
    unfold SegOwned
    rw [(ho j).1,(ho j).2]
  have hnodup' : (unacked p++[i]++rest).Nodup := by simpa using hn
  unfold unackedAppend
  rcases hu.hang segs_le_none hi hnotU (by simp [hs]) with ⟨hle,he,hc⟩|⟨hlt,q,hqm,ht,hc⟩
  · refine ⟨rest,_,hr,if_pos hle,h.step hp hin (fun q => ?_) (fun q hqp => by simp [hs,hqp]) (fun j => ?_)
      ⟨?_,?_,hnodup',how⟩⟩
    · refine Eq.trans (setTcb_keeps _ p Tcb.inUse ?_ q) (hus q)
      rfl
    · by_cases hji : j=i
      · subst hji
        exact .inr ⟨fun _ => hown,fun _ => (ho j).2.trans hown⟩
      · exact .inl (hrw j hji)
    · simpa [hs] using hrs
    · simpa [he] using hc
  rw [←linkSeg_next] at hc
  rw [if_neg (not_le.mpr hlt),ht]
  refine ⟨rest,_,hr,rfl,h.step hp hin (fun q => ?_) (fun q hqp => by simp [hs,hqp]) (fun j => ?_)
    ⟨?_,hc,hnodup',fun j => (how j).trans (by simp [SegOwned])⟩⟩
  · exact hus q
  · by_cases hj : j=i ∨ j=q
    · have hjw : (t.seg j).pcb=p := by
        rcases hj with rfl|rfl
        · exact hown
        · exact ((hq.mem j).mp (mem_append_left _ hqm)).2.2
      exact .inr ⟨fun _ => hjw,fun _ => by rw [(linkSeg_owner _ _ _ _).2,(ho j).2,hjw]⟩
    · refine .inl ?_
      unfold linkSeg
      rw [setSeg_seg,if_neg fun he => hj (.inr he)]
      exact hrw j fun he => hj (.inl he)
  · have hqr : ∀ j∈rest,j≠q := fun j hj he =>
      hsp.2.2 q hqm j (mem_cons_of_mem i hj) he.symm
    have hc' : Chain ((sentTables t i).linkSeg q i).segNext cfg.tcpSegs noneIndex (t.segNext i) rest :=
      Path.congr hrs fun j hj => by simp [hqr j hj]
    simpa [hs] using hc'

omit h

/-- What unlinking a segment leaves: the other connections, every row's owner, and both queues without it. -/
structure Unlinked (cfg : Config) (t v : Tables) (p i : ℕ) (l m : List ℕ) : Prop where
  others : ∀ q,q≠p → v.tcb q=t.tcb q
  inUse : ∀ q,(v.tcb q).inUse=(t.tcb q).inUse
  ooseq : ∀ q,(v.tcb q).ooseq=(t.tcb q).ooseq
  oos : v.oos=t.oos
  owner : ∀ j,(v.seg j).inUse=(t.seg j).inUse ∧ (v.seg j).pcb=(t.seg j).pcb
  /-- Only rows of the connection are relinked. -/
  rows : ∀ j,v.seg j=t.seg j ∨ SegOwned cfg t p j
  unsent_chain : Chain v.segNext cfg.tcpSegs noneIndex (v.tcb p).unsent (l.erase i)
  unacked_chain : Chain v.segNext cfg.tcpSegs noneIndex (v.tcb p).unacked (m.erase i)

theorem SegQueues.relink (hq : SegQueues cfg t p l m) {q n : ℕ} (hqm : q∈m++l) :
    ∀ j,(t.linkSeg q n).seg j=t.seg j ∨ SegOwned cfg t p j := by
  intro j
  by_cases hjq : j=q
  · exact .inr ((hq.mem j).mp (hjq ▸ hqm))
  · exact .inl (by unfold linkSeg; simp [hjq])

theorem pred?_off_queue {a : ℕ} (hl : Chain t.segNext cfg.tcpSegs noneIndex a l)
    (hi : i < cfg.tcpSegs) (hil : i∉l) : a≠i ∧ pred? t.segNext cfg.tcpSegs i cfg.tcpSegs a=none :=
  ⟨fun he => hil (he ▸ hl.head_mem segs_le_none (he ▸ hi)),pred?_absent segs_le_none hl hi hil⟩

theorem segUnlink_some (hq : SegQueues cfg t p l m) (hi : SegOwned cfg t p i) :
    ∃ v,segUnlink cfg t p i=some v ∧ Unlinked cfg t v p i l m := by
  have hd := (nodup_append.mp hq.nodup).2.2
  unfold segUnlink
  by_cases hil : i∈l
  · have him : i∉m := fun hm => hd i hm i hil rfl
    rcases hq.unsent_chain.unlink segs_le_none hil with ⟨hh,hc⟩|⟨hh,q,hql,hqi,hp,hc⟩
    · rw [if_pos hh]
      refine ⟨_,rfl,fun q hqp => by simp [hqp],setTcb_keeps t p Tcb.inUse rfl,
        setTcb_keeps t p Tcb.ooseq rfl,rfl,fun j => ⟨rfl,rfl⟩,fun j => .inl rfl,?_,?_⟩
      · simpa using hc
      · rw [erase_of_not_mem him]
        simpa using hq.unacked_chain
    rw [if_neg hh,hp]
    refine ⟨_,rfl,fun q _ => rfl,fun q => rfl,fun q => rfl,rfl,linkSeg_owner t q _,hq.relink (mem_append_right m hql),?_,?_⟩
    · rw [linkSeg_next]
      exact hc
    · rw [erase_of_not_mem him]
      refine Path.congr hq.unacked_chain fun j hj => ?_
      have hjq : j≠q := fun he => hd j hj q hql he
      simp [hjq]
  have him : i∈m := by
    rcases mem_append.mp ((hq.mem i).mpr hi) with hm|hl
    · exact hm
    · exact absurd hl hil
  have ho := pred?_off_queue hq.unsent_chain hi.1 hil
  rw [if_neg ho.1,ho.2]
  rcases hq.unacked_chain.unlink segs_le_none him with ⟨hh,hc⟩|⟨hh,q,hqm,hqi,hp,hc⟩
  · rw [if_pos hh]
    refine ⟨_,rfl,fun q hqp => by simp [hqp],setTcb_keeps t p Tcb.inUse rfl,
      setTcb_keeps t p Tcb.ooseq rfl,rfl,fun j => ⟨rfl,rfl⟩,fun j => .inl rfl,?_,?_⟩
    · rw [erase_of_not_mem hil]
      simpa using hq.unsent_chain
    · simpa using hc
  rw [if_neg hh,hp]
  refine ⟨_,rfl,fun q _ => rfl,fun q => rfl,fun q => rfl,rfl,linkSeg_owner t q _,hq.relink (mem_append_left l hqm),?_,?_⟩
  · rw [erase_of_not_mem hil]
    refine Path.congr hq.unsent_chain fun j hj => ?_
    have hjq : j≠q := fun he => hd q hqm j hj he.symm
    simp [hjq]
  · rw [linkSeg_next]
    exact hc

theorem SegsOk.freed (h : SegsOk cfg t unsent unacked) (hi : i < cfg.tcpSegs) (hii : (t.seg i).inUse) (ho : (t.seg i).pcb=p) :
    ∃ v,segUnlink cfg t p i=some v ∧ Unlinked cfg t v p i (unsent p) (unacked p) ∧
      SegsOk cfg (v.setSeg i .zero) (update unsent p ((unsent p).erase i)) (update unacked p ((unacked p).erase i)) := by
  obtain ⟨hp,hin⟩ := h.owner i hi hii
  rw [ho] at hp hin
  have hq := h.queues p hp hin
  obtain ⟨v,hv,hl⟩ := segUnlink_some hq ⟨hi,hii,ho⟩
  have hs := nodup_append.mp hq.nodup
  have hnotL : i∉(unsent p).erase i := hs.2.1.not_mem_erase
  have hnotM : i∉(unacked p).erase i := hs.1.not_mem_erase
  refine ⟨v,hv,hl,h.step hp hin hl.inUse (fun q hqp => by simp [hl.others q hqp]) (fun j => ?_) ⟨?_,?_,?_,fun j => ?_⟩⟩
  · by_cases hji : j=i
    · subst hji
      exact .inr ⟨fun _ => ho,fun hz => by simp [Seg.zero] at hz⟩
    · rw [setSeg_seg,if_neg hji]
      rcases hl.rows j with hj|hj
      · exact .inl hj
      · exact .inr ⟨fun _ => hj.2.2,fun _ => (hl.owner j).2.trans hj.2.2⟩
  · refine Path.congr hl.unsent_chain fun j hj => ?_
    have hji : j≠i := fun he => hnotL (he ▸ hj)
    simp [hji]
  · refine Path.congr hl.unacked_chain fun j hj => ?_
    have hji : j≠i := fun he => hnotM (he ▸ hj)
    simp [hji]
  · exact hq.nodup.sublist (erase_sublist.append erase_sublist)
  · have hm := hq.mem j
    rw [mem_append] at hm ⊢
    rw [hs.1.mem_erase_iff,hs.2.1.mem_erase_iff,←and_or_left,hm]
    unfold SegOwned
    by_cases hji : j=i
    · simp [hji,Seg.zero]
    · simp [hji,hl.owner j]

end Segments

section Held

variable {cfg : Config} {t u : Tables} {p i : ℕ} {ooseq : ℕ → List ℕ}

variable {l : List ℕ}

/-- A change confined to one connection's head and rows only needs that connection's queue again. -/
theorem OosOk.step (h : OosOk cfg t ooseq) (hp : p < cfg.tcpPcbs) (hin : (t.tcb p).inUse)
    (hus : ∀ q,(u.tcb q).inUse=(t.tcb q).inUse) (hh : ∀ q,q≠p → (u.tcb q).ooseq=(t.tcb q).ooseq)
    (hr : ∀ i,u.oos i=t.oos i ∨ (((t.oos i).inUse → (t.oos i).pcb=p) ∧ ((u.oos i).inUse → (u.oos i).pcb=p)))
    (hq : OosQueue cfg u p l) : OosOk cfg u (update ooseq p l) := by
  refine ⟨fun q hql hqn => ?_,fun j hj hjn => ?_⟩
  · by_cases hqp : q=p
    · subst hqp
      simpa using hq
    · rw [update_of_ne hqp]
      rw [hus] at hqn
      refine (h.queues q hql hqn).frame (hh q hqp) (fun j => ?_) fun j hj => ?_
      · exact and_congr_right fun _ => (row_elsewhere Oos.inUse Oos.pcb hqp (hr j)).1
      · unfold oosNext
        rw [(row_elsewhere Oos.inUse Oos.pcb hqp (hr j)).2 hj.2]
  · rw [hus]
    rcases hr j with he|⟨-,hu⟩
    · rw [he] at hjn ⊢
      exact h.owner j hj hjn
    · rw [hu hjn]
      exact ⟨hp,hin⟩

theorem OosOk.opened (h : OosOk cfg t ooseq) (hf : (t.tcb p).inUse=false) (v : ℕ) :
    OosOk cfg (t.setTcb p (Tcb.opened cfg v)) (update ooseq p []) := by
  refine ⟨fun q hq hin => ?_,fun i hi hin => ?_⟩
  · by_cases hqp : q=p
    · subst hqp
      refine ⟨?_,fun i => ?_,by simp⟩
      · simp only [setTcb_tcb,if_true,update_self]
        exact Chain.nil
      · rw [update_self]
        constructor
        · intro hi
          simp at hi
        · rintro ⟨hi,hin,how⟩
          have ho := (h.owner i hi hin).2
          rw [show (t.oos i).pcb=q from how,hf] at ho
          cases ho
    · rw [update_of_ne hqp]
      have hin' : (t.tcb q).inUse := by simpa [hqp] using hin
      exact (h.queues q hq hin').frame (by simp [hqp]) (fun i => Iff.rfl) fun i _ => rfl
  · have ho := h.owner i hi hin
    refine ⟨ho.1,?_⟩
    simp only [setTcb_oos,setTcb_tcb]
    split_ifs
    · rfl
    · exact ho.2

/-- A connection that holds nothing owns no held segment, so it may be deleted. -/
theorem OosOk.closed (h : OosOk cfg t ooseq) (hp : p < cfg.tcpPcbs) (hin : (t.tcb p).inUse)
    (hem : (t.tcb p).ooseq=noneIndex) : OosOk cfg ((sendQueuesFree cfg t p).setTcb p .zero) ooseq := by
  have ht : ∀ q,q≠p → ((sendQueuesFree cfg t p).setTcb p .zero).tcb q=t.tcb q := by
    intro q hqp
    unfold sendQueuesFree queueFree
    simp [hqp]
  have hos : ((sendQueuesFree cfg t p).setTcb p .zero).oos=t.oos := rfl
  have hn : ooseq p=[] :=
    ((h.queues p hp hin).chain.nil_iff ooseq_le_none).mp (hem ▸ ooseq_le_none)
  refine ⟨fun q hq hqn => ?_,fun i hi hii => ?_⟩
  · have hqp : q≠p := by
      rintro rfl
      simp [Tcb.zero] at hqn
    rw [ht q hqp] at hqn
    exact (h.queues q hq hqn).frame (by rw [ht q hqp]) (fun i => Iff.rfl) fun i _ => rfl
  · rw [hos] at hii ⊢
    have ho := h.owner i hi hii
    have hne : (t.oos i).pcb≠p := fun he => by
      have hm := ((h.queues p hp hin).mem i).mpr ⟨hi,hii,he⟩
      simp [hn] at hm
    rw [ht _ hne]
    exact ho

theorem Tables.linkOos_next (t : Tables) (i n : ℕ) : (t.linkOos i n).oosNext=update t.oosNext i n := by
  funext j
  rw [linkOos_oosNext,update_apply]

/-- The held list with a row threaded in front of the first one it starts before. -/
def oosPlaced (t : Tables) (p i : ℕ) (l : List ℕ) : List ℕ :=
  (l.takeWhile fun j => !oosBefore t p (t.oos i).seq j)++i::(l.dropWhile fun j => !oosBefore t p (t.oos i).seq j)

theorem mem_oosPlaced {t : Tables} {p i j : ℕ} : j∈oosPlaced t p i l ↔ j∈l ∨ j=i := by
  have hl : (l.takeWhile fun j => !oosBefore t p (t.oos i).seq j)++
      (l.dropWhile fun j => !oosBefore t p (t.oos i).seq j)=l := takeWhile_append_dropWhile
  unfold oosPlaced
  nth_rewrite 3 [←hl]
  simp only [mem_append,mem_cons]
  tauto

theorem length_oosPlaced {t : Tables} {p i : ℕ} : (oosPlaced t p i l).length=l.length+1 := by
  have hl : (l.takeWhile fun j => !oosBefore t p (t.oos i).seq j)++
      (l.dropWhile fun j => !oosBefore t p (t.oos i).seq j)=l := takeWhile_append_dropWhile
  have hln := congrArg length hl
  rw [length_append] at hln
  unfold oosPlaced
  rw [length_append,length_cons]
  omega

/-- Threading a free row into the queue of a connection that has room for it. -/
theorem OosOk.inserted (h : OosOk cfg t ooseq) (hp : p < cfg.tcpPcbs) (hin : (t.tcb p).inUse)
    (hi : i < cfg.tcpOoseqEntries) (hf : (t.oos i).inUse=false)
    (hr : (ooseq p).length < cfg.tcpOoseqSegs) {x : Oos} (hx : x.inUse) (hxp : x.pcb=p) :
    OosOk cfg (oosInsert cfg (t.setOos i x) p i) (update ooseq p (oosPlaced (t.setOos i x) p i (ooseq p))) := by
  have hq := h.queues p hp hin
  have hn : i∉ooseq p := fun hm => by
    have ho := ((hq.mem i).mp hm).2.1
    rw [hf] at ho
    cases ho
  have hne : ∀ j∈ooseq p,j≠i := fun j hj he => hn (he ▸ hj)
  have hch : Chain (t.setOos i x).oosNext cfg.tcpOoseqEntries noneIndex ((t.setOos i x).tcb p).ooseq
      (ooseq p) := Path.congr hq.chain fun j hj => by simp [hne j hj]
  have ho : ∀ j,j∈oosPlaced (t.setOos i x) p i (ooseq p) ↔ OosOwned cfg (t.setOos i x) p j := by
    intro j
    rw [mem_oosPlaced,hq.mem]
    unfold OosOwned
    by_cases hji : j=i
    · simp [hji,hx,hxp,hi]
    · simp [hji]
  have hl : (oosPlaced (t.setOos i x) p i (ooseq p)).length ≤ cfg.tcpOoseqSegs := by
    rw [length_oosPlaced]
    exact hr
  have hrw : ∀ j,j≠i → (t.setOos i x).oos j=t.oos j := fun j hj => by simp [hj]
  have ht := hch.thread ooseq_le_none (oosBefore (t.setOos i x) p ((t.setOos i x).oos i).seq) hi hn ooseq_le_none
  unfold oosInsert
  rcases ht with ⟨hle,hc⟩|⟨hlt,hmm,hc⟩
  · rw [if_pos hle]
    refine h.step hp hin (setTcb_keeps _ p Tcb.inUse rfl) (fun q hqp => by simp [hqp]) (fun j => ?_) ⟨?_,fun j => ?_,hl⟩
    · by_cases hji : j=i
      · subst hji
        exact .inr ⟨fun hu => by simp [hf] at hu,fun _ => by simp [hxp]⟩
      · refine .inl ?_
        unfold linkOos
        simp [hji]
    · rw [setTcb_oosNext,linkOos_next,setTcb_tcb,if_pos rfl]
      exact hc
    · exact (ho j).trans (by simp [OosOwned])
  rw [if_neg (not_le.mpr hlt)]
  refine h.step hp hin (fun q => rfl) (fun q _ => rfl) (fun j => ?_) ⟨?_,fun j => ?_,hl⟩
  · generalize (seek (t.setOos i x).oosNext cfg.tcpOoseqEntries
      (oosBefore (t.setOos i x) p ((t.setOos i x).oos i).seq) cfg.tcpOoseqEntries noneIndex
      ((t.setOos i x).tcb p).ooseq).1=q at hmm ⊢
    by_cases hj : j=i ∨ j=q
    · refine .inr ⟨fun hu => ?_,fun _ => ?_⟩
      · rcases hj with rfl|rfl
        · simp [hf] at hu
        · exact ((hq.mem j).mp hmm).2.2
      · rw [(linkOos_owner _ _ _ _).2,(linkOos_owner _ _ _ _).2]
        rcases hj with rfl|rfl
        · simpa using hxp
        · rw [hrw j (hne j hmm)]
          exact ((hq.mem j).mp hmm).2.2
    · refine .inl ?_
      unfold linkOos
      rw [setOos_oos,if_neg fun he => hj (.inr he),setOos_oos,if_neg fun he => hj (.inl he)]
      exact hrw j fun he => hj (.inl he)
  · rw [linkOos_next,linkOos_next]
    exact hc
  · exact (ho j).trans (by simp [OosOwned])

theorem OosOk.freed (h : OosOk cfg t ooseq) (hi : i < cfg.tcpOoseqEntries) (hii : (t.oos i).inUse) (how : (t.oos i).pcb=p) :
    ∃ v,oosUnlink cfg t p i=some v ∧ OosOk cfg (v.setOos i .zero) (update ooseq p ((ooseq p).erase i)) := by
  obtain ⟨hp,hin⟩ := h.owner i hi hii
  rw [how] at hp hin
  have hq := h.queues p hp hin
  have hn := hq.chain.nodup ooseq_le_none
  have hm : i∈ooseq p := (hq.mem i).mpr ⟨hi,hii,how⟩
  have hnt : i∉(ooseq p).erase i := hn.not_mem_erase
  have hl : ((ooseq p).erase i).length ≤ cfg.tcpOoseqSegs := length_erase_le.trans hq.length
  -- Membership and links of any tables that keep every owner, with row `i` zeroed.
  have ha : ∀ v : Tables,(∀ j,(v.oos j).inUse=(t.oos j).inUse ∧ (v.oos j).pcb=(t.oos j).pcb) →
      Chain v.oosNext cfg.tcpOoseqEntries noneIndex (v.tcb p).ooseq ((ooseq p).erase i) →
      OosQueue cfg (v.setOos i .zero) p ((ooseq p).erase i) := by
    intro v ho hc
    refine ⟨Path.congr hc fun j hj => ?_,fun j => ?_,hl⟩
    · have hji : j≠i := fun he => hnt (he ▸ hj)
      simp [hji]
    · rw [hn.mem_erase_iff,hq.mem]
      unfold OosOwned
      by_cases hji : j=i
      · simp [hji,Oos.zero]
      · simp [hji,ho j]
  have hzr : ∀ v : Tables,((v.setOos i .zero).oos i).inUse → ((v.setOos i .zero).oos i).pcb=p :=
    fun v hz => by simp [Oos.zero] at hz
  unfold oosUnlink
  rcases hq.chain.unlink ooseq_le_none hm with ⟨hh,hc⟩|⟨hh,q,hql,hqi,hpr,hc⟩
  · rw [if_pos hh]
    refine ⟨_,rfl,h.step hp hin (t.setTcb_keeps p Tcb.inUse rfl) (fun q hqp => by simp [hqp]) (fun j => ?_)
      (ha _ (fun j => ⟨rfl,rfl⟩) (by simpa using hc))⟩
    · by_cases hji : j=i
      · subst hji
        exact .inr ⟨fun _ => how,hzr _⟩
      · exact .inl (by simp [hji])
  rw [if_neg hh,hpr]
  refine ⟨_,rfl,h.step hp hin (fun q => rfl) (fun q _ => rfl) (fun j => ?_)
    (ha _ (linkOos_owner t q _) (by rw [linkOos_next]; exact hc))⟩
  by_cases hji : j=i
  · subst hji
    exact .inr ⟨fun _ => how,hzr _⟩
  rw [setOos_oos,if_neg hji]
  by_cases hjq : j=q
  · subst hjq
    have hjw := ((hq.mem j).mp hql).2.2
    exact .inr ⟨fun _ => hjw,fun _ => (linkOos_owner t j _ j).2.trans hjw⟩
  · exact .inl (by unfold linkOos; simp [hjq])

variable {w : Work}

/-- So `oos_free` of a segment in use erases it. -/
theorem OosOk.oosFree (h : OosOk cfg w.tab ooseq) (hr : w.ready) (hi : i < cfg.tcpOoseqEntries)
    (hin : (w.tab.oos i).inUse) (ho : (w.tab.oos i).pcb=p) :
    OosOk cfg (TcpPcb.oosFree cfg w i).tab (update ooseq p ((ooseq p).erase i)) ∧ (TcpPcb.oosFree cfg w i).ready := by
  obtain ⟨v,hv,hf⟩ := h.freed hi hin ho
  have hp : (w.tab.oos i).pcb < cfg.tcpPcbs := (h.owner i hi hin).1
  have hfr : TcpPcb.oosFree cfg w i=w.done (v.setOos i .zero) := by
    rw [←ho] at hv
    unfold TcpPcb.oosFree
    rw [if_neg (by simp [hr,hi]),if_neg (by simp [hin,hp])]
    simp only [hv]
  rw [hfr]
  exact ⟨hf,hr⟩

end Held

section Runs

/-- The tables beside a record of when each segment row was last allocated. -/
structure Trace where
  work : Work
  clock : ℕ
  /-- Call that last allocated each segment row. -/
  born : ℕ → ℕ

variable {cfg : Config} {unsent unacked ooseq : ℕ → List ℕ} {s : Trace}

/-- Allocation record after a call. -/
def bornAfter (s : Trace) (w : Work) : Call → ℕ → ℕ
  | .segAlloc _ => if w.io.status=.ok then update s.born w.io.index s.clock else s.born
  | _ => s.born

/-- One call, recorded when it allocates a segment. -/
def traceStep (cfg : Config) (s : Trace) (c : Call) : Trace :=
  ⟨step cfg s.work c,s.clock+1,bornAfter s (step cfg s.work c) c⟩

/-- Unsent segments of a connection, read off the tables. -/
def unsentList (cfg : Config) (t : Tables) (p : ℕ) : List ℕ :=
  walk t.segNext cfg.tcpSegs cfg.tcpSegs (t.tcb p).unsent

/-- Unacknowledged segments of a connection, read off the tables. -/
def unackedList (cfg : Config) (t : Tables) (p : ℕ) : List ℕ :=
  walk t.segNext cfg.tcpSegs cfg.tcpSegs (t.tcb p).unacked

/-- Held segments of a connection, read off the tables. -/
def ooseqList (cfg : Config) (t : Tables) (p : ℕ) : List ℕ :=
  walk t.oosNext cfg.tcpOoseqEntries cfg.tcpOoseqEntries (t.tcb p).ooseq

/-- The queues a run has built, with segments in the order of their allocation. -/
structure Represents (cfg : Config) (s : Trace) (unsent unacked ooseq : ℕ → List ℕ) : Prop where
  segs : SegsOk cfg s.work.tab unsent unacked
  oos : OosOk cfg s.work.tab ooseq
  /-- Segments in use were allocated before now. -/
  past : ∀ i < cfg.tcpSegs,(s.work.tab.seg i).inUse → s.born i < s.clock
  /-- A connection's segments stand in allocation order. -/
  order : ∀ p < cfg.tcpPcbs,(s.work.tab.tcb p).inUse → ((unacked p++unsent p).map s.born).Pairwise (·<·)

theorem represents_clear (w : Work) (born : ℕ → ℕ) (n : ℕ) :
    Represents cfg ⟨clear w,n,born⟩ (fun _ => []) (fun _ => []) (fun _ => []) := by
  refine ⟨⟨fun p _ hin => ?_,fun i _ hin => ?_⟩,⟨fun p _ hin => ?_,fun i _ hin => ?_⟩,fun i _ hin => ?_,
    fun p _ hin => ?_⟩
  all_goals cases hin

variable {w : Work}

section

variable (h : Represents cfg s unsent unacked ooseq)

include h

theorem Represents.keep (hw : SameQueues s.work.tab w.tab) : Represents cfg ⟨w,s.clock+1,s.born⟩ unsent unacked ooseq := by
  refine ⟨h.segs.frame hw.seg hw.inUse hw.unsent hw.unacked,h.oos.frame hw.oos hw.inUse hw.ooseq,
    fun i hi hin => ?_,fun p hp hin => ?_⟩
  · rw [hw.seg] at hin
    exact lt_succ_of_lt (h.past i hi hin)
  · rw [hw.inUse] at hin
    exact h.order p hp hin

theorem Represents.afterOpen (v : ℕ) : ∃ un ua oo,Represents cfg ⟨openTcb cfg s.work v,s.clock+1,s.born⟩ un ua oo := by
  rcases openTcb_cases with ⟨ht,-,-⟩|⟨p,hp,-,hf,-,he⟩
  · exact ⟨_,_,_,h.keep (.of_eq ht)⟩
  rw [he]
  refine ⟨_,_,_,h.segs.opened hf v,h.oos.opened hf v,
    fun i hi hin => lt_succ_of_lt (h.past i hi hin),fun q hq hin => ?_⟩
  by_cases hqp : q=p
  · simp [hqp]
  · rw [update_of_ne hqp,update_of_ne hqp]
    exact h.order q hq (by simpa [Work.took,hqp] using hin)

theorem Represents.afterClose (p : ℕ) : ∃ un ua oo,Represents cfg ⟨close cfg s.work p,s.clock+1,s.born⟩ un ua oo := by
  rcases close_cases p with ht|⟨hp,hin,hem,he⟩
  · exact ⟨_,_,_,h.keep (.of_eq ht)⟩
  have hs := sendQueuesFree_seg (h.segs.queues p hp hin)
  refine ⟨unsent,unacked,ooseq,?_,?_,fun i hi hii => ?_,fun q hq hqn => ?_⟩
  · dsimp only
    rw [he]
    exact h.segs.closed hp hin
  · dsimp only
    rw [he]
    exact h.oos.closed hp hin hem
  · rw [he] at hii
    simp only [setTcb_seg,hs] at hii
    split_ifs at hii
    · cases hii
    · exact lt_succ_of_lt (h.past i hi hii)
  · refine h.order q hq ?_
    rw [he] at hqn
    by_cases hqp : q=p
    · simp [hqp,Tcb.zero] at hqn
    · simpa [sendQueuesFree,queueFree,hqp] using hqn

variable {l : List ℕ}

omit h in
theorem unsentAppend_frame (cfg : Config) (t : Tables) (p i : ℕ) :
    (∀ q,((unsentAppend cfg t p i).tcb q).inUse=(t.tcb q).inUse) ∧ (unsentAppend cfg t p i).oos=t.oos ∧
      (∀ j,((unsentAppend cfg t p i).seg j).inUse=(t.seg j).inUse) ∧
      ∀ q,((unsentAppend cfg t p i).tcb q).ooseq=(t.tcb q).ooseq := by
  unfold unsentAppend
  split_ifs
  · exact ⟨t.setTcb_keeps p Tcb.inUse rfl,rfl,fun j => rfl,t.setTcb_keeps p Tcb.ooseq rfl⟩
  split
  · exact ⟨fun q => rfl,rfl,fun j => (linkSeg_owner t _ i j).1,fun q => rfl⟩
  · exact ⟨fun q => rfl,rfl,fun j => rfl,fun q => rfl⟩

theorem Represents.afterSegAlloc (a : SegArgs) : ∃ un ua oo,Represents cfg (traceStep cfg s (.segAlloc a)) un ua oo := by
  rcases segAlloc_cases a with ⟨ht,hst⟩|⟨i,hi,hfr,hp,hin,he⟩
  · have hs : traceStep cfg s (.segAlloc a)=⟨segAlloc cfg s.work a,s.clock+1,s.born⟩ :=
      congrArg (Trace.mk _ _) (if_neg hst)
    rw [hs]
    exact ⟨_,_,_,h.keep (.of_eq ht)⟩
  have hs : traceStep cfg s (.segAlloc a)=⟨segAlloc cfg s.work a,s.clock+1,update s.born i s.clock⟩ := by
    have hst : (segAlloc cfg s.work a).io.status=.ok := by rw [he]; rfl
    have hix : (segAlloc cfg s.work a).io.index=i := by rw [he]; rfl
    have hb : bornAfter s (segAlloc cfg s.work a) (.segAlloc a)=update s.born i s.clock := by
      rw [←hix]
      exact if_pos hst
    exact congrArg (Trace.mk _ _) hb
  have hf := unsentAppend_frame cfg (s.work.tab.setSeg i a.row) a.pcb i
  have hol : ∀ p < cfg.tcpPcbs,(s.work.tab.tcb p).inUse → ∀ j∈unacked p++unsent p,j≠i ∧ s.born j < s.clock := by
    intro p hp hin j hj
    have ho := ((h.segs.queues p hp hin).mem j).mp hj
    refine ⟨fun hji => ?_,h.past j ho.1 ho.2.1⟩
    have hu := ho.2.1
    rw [hji,hfr] at hu
    cases hu
  rw [hs,he]
  refine ⟨_,_,ooseq,h.segs.appended hp hin hi hfr rfl rfl rfl,?_,fun j hj hjn => ?_,fun p hpl hpn => ?_⟩
  · exact h.oos.frame hf.2.1 hf.1 hf.2.2.2
  · dsimp only
    by_cases hji : j=i
    · simp [hji]
    rw [update_of_ne hji]
    refine lt_succ_of_lt (h.past j hj ?_)
    have huj := hf.2.2.1 j
    rw [setSeg_seg,if_neg hji] at huj
    exact huj.symm.trans hjn
  · dsimp only
    have hpin' : (s.work.tab.tcb p).inUse := (hf.1 p).symm.trans hpn
    have hk := h.order p hpl hpin'
    rw [←map_congr_left fun j hj => update_of_ne (hol p hpl hpin' j hj).1 s.clock s.born] at hk
    by_cases hpa : p=a.pcb
    · subst hpa
      rw [update_self,←append_assoc,map_append,pairwise_append]
      refine ⟨hk,by simp,fun x hx y hy => ?_⟩
      obtain ⟨j,hj,rfl⟩ := mem_map.mp hx
      have hy' : y=s.clock := by simpa using hy
      rw [hy',update_of_ne (hol _ hpl hpin' j hj).1]
      exact (hol _ hpl hpin' j hj).2
    · rw [update_of_ne hpa]
      exact hk

omit h in
theorem sent_frame {t u : Tables} {i : ℕ} (h : unackedAppend cfg (sentTables t i) (t.seg i).pcb i=some u) :
    (∀ p,(u.tcb p).inUse=(t.tcb p).inUse) ∧ u.oos=t.oos ∧ (∀ j,(u.seg j).inUse=(t.seg j).inUse) ∧
      ∀ p,(u.tcb p).ooseq=(t.tcb p).ooseq := by
  have hs : (∀ p,((sentTables t i).tcb p).inUse=(t.tcb p).inUse) ∧ ∀ p,((sentTables t i).tcb p).ooseq=(t.tcb p).ooseq :=
    ⟨t.setTcb_keeps _ Tcb.inUse rfl,t.setTcb_keeps _ Tcb.ooseq rfl⟩
  have hsg : ∀ j,((sentTables t i).seg j).inUse=(t.seg j).inUse := fun j =>
    (linkSeg_owner _ i noneIndex j).1
  unfold unackedAppend at h
  split_ifs at h
  · cases h
    exact ⟨fun p => (setTcb_keeps _ _ Tcb.inUse (by rfl) p).trans (hs.1 p),rfl,hsg,
      fun p => (setTcb_keeps _ _ Tcb.ooseq (by rfl) p).trans (hs.2 p)⟩
  split at h
  · cases h
    exact ⟨hs.1,rfl,fun j => (linkSeg_owner _ _ i j).1.trans (hsg j),hs.2⟩
  · cases h

theorem Represents.afterSegSent (i : ℕ) : ∃ un ua oo,Represents cfg ⟨segSent cfg s.work i,s.clock+1,s.born⟩ un ua oo := by
  rcases segSent_cases with ht|⟨hi,hin,-,hh,he⟩
  · exact ⟨_,_,_,h.keep (.of_eq ht)⟩
  obtain ⟨rest,u,hr,hs,hok⟩ := h.segs.sent hi hin rfl hh
  rw [hs,Option.getD_some] at he
  have hf := sent_frame hs
  rw [show segSent cfg s.work i={segSent cfg s.work i with tab := u} from by rw [←he]]
  refine ⟨_,_,ooseq,hok,?_,fun j hj hjn => ?_,fun p hp hpn => ?_⟩
  · exact h.oos.frame hf.2.1 hf.1 hf.2.2.2
  · rw [hf.2.2.1] at hjn
    exact lt_succ_of_lt (h.past j hj hjn)
  · rw [hf.1] at hpn
    have ho := h.order p hp hpn
    by_cases hpi : p=(s.work.tab.seg i).pcb
    · subst hpi
      rw [update_self,update_self]
      rw [hr] at ho
      simpa using ho
    · rw [update_of_ne hpi,update_of_ne hpi]
      exact ho

theorem Represents.afterSegFree (i : ℕ) : ∃ un ua oo,Represents cfg ⟨segFree cfg s.work i,s.clock+1,s.born⟩ un ua oo := by
  rcases segFree_cases with htb|⟨hi,hin,hp,t,ht,he⟩
  · exact ⟨_,_,_,h.keep (.of_eq htb)⟩
  obtain ⟨v,hv,hl,hok⟩ := h.segs.freed hi hin rfl
  have htv : t=v := Option.some.inj (ht.symm.trans hv)
  subst htv
  rw [show segFree cfg s.work i={segFree cfg s.work i with tab := t.setSeg i .zero} from by rw [←he]]
  refine ⟨_,_,ooseq,hok,?_,fun j hj hjn => ?_,fun p hpl hpn => ?_⟩
  · exact h.oos.frame hl.oos hl.inUse hl.ooseq
  · rw [setSeg_seg] at hjn
    split_ifs at hjn
    · cases hjn
    · exact lt_succ_of_lt (h.past j hj ((hl.owner j).1.symm.trans hjn))
  · rw [setSeg_tcb,hl.inUse] at hpn
    have ho := h.order p hpl hpn
    by_cases hpi : p=(s.work.tab.seg i).pcb
    · subst hpi
      rw [update_self,update_self]
      exact ho.sublist ((erase_sublist.append erase_sublist).map _)
    · rw [update_of_ne hpi,update_of_ne hpi]
      exact ho

omit h in
theorem oosInsert_frame (cfg : Config) (t : Tables) (p i : ℕ) : SameSends t (oosInsert cfg t p i) := by
  unfold oosInsert
  dsimp only
  split_ifs
  · exact ⟨rfl,setTcb_keeps _ p Tcb.inUse rfl,setTcb_keeps _ p Tcb.unsent rfl,
      setTcb_keeps _ p Tcb.unacked rfl⟩
  · exact ⟨rfl,fun q => rfl,fun q => rfl,fun q => rfl⟩

omit h in
theorem oosUnlink_frame {t v : Tables} {p i : ℕ} (h : oosUnlink cfg t p i=some v) : SameSends t v := by
  unfold oosUnlink at h
  split_ifs at h
  · cases h
    exact ⟨rfl,setTcb_keeps _ p Tcb.inUse rfl,setTcb_keeps _ p Tcb.unsent rfl,setTcb_keeps _ p Tcb.unacked rfl⟩
  split at h
  · cases h
    exact ⟨rfl,fun q => rfl,fun q => rfl,fun q => rfl⟩
  · cases h

theorem Represents.afterOosAlloc (a : OosArgs) :
    ∃ un ua oo,Represents cfg ⟨oosAlloc cfg s.work a,s.clock+1,s.born⟩ un ua oo := by
  rcases oosAlloc_cases cfg s.work a with ⟨ht,-⟩|⟨i,hi,hfr,hp,hin,-,hr,he⟩
  · exact ⟨_,_,_,h.keep (.of_eq ht)⟩
  have hq := h.oos.queues _ hp hin
  rw [walk_chain ooseq_le_none hq.chain (hq.chain.length_le ooseq_le_none)] at hr
  have hf := oosInsert_frame cfg (s.work.tab.setOos i a.row) a.pcb i
  rw [he]
  refine ⟨unsent,unacked,_,h.segs.frame hf.seg hf.inUse hf.unsent hf.unacked,
    h.oos.inserted hp hin hi hfr hr rfl rfl,fun j hj hjn => ?_,fun p hpl hpn => ?_⟩
  · dsimp only [Work.took] at hjn
    rw [hf.seg] at hjn
    exact lt_succ_of_lt (h.past j hj hjn)
  · dsimp only [Work.took] at hpn
    rw [hf.inUse] at hpn
    exact h.order p hpl hpn

theorem Represents.afterOosFree (i : ℕ) : ∃ un ua oo,Represents cfg ⟨oosFree cfg s.work i,s.clock+1,s.born⟩ un ua oo := by
  rcases oosFree_cases with htb|⟨hi,hin,hp,t,ht,he⟩
  · exact ⟨_,_,_,h.keep (.of_eq htb)⟩
  obtain ⟨v,hv,hok⟩ := h.oos.freed hi hin rfl
  have htv : t=v := Option.some.inj (ht.symm.trans hv)
  subst htv
  have hf := oosUnlink_frame ht
  rw [show oosFree cfg s.work i={oosFree cfg s.work i with tab := t.setOos i .zero} from by rw [←he]]
  refine ⟨unsent,unacked,_,h.segs.frame hf.seg hf.inUse hf.unsent hf.unacked,hok,
    fun j hj hjn => ?_,fun p hpl hpn => ?_⟩
  · dsimp only [setOos_seg] at hjn
    rw [hf.seg] at hjn
    exact lt_succ_of_lt (h.past j hj hjn)
  · dsimp only [setOos_tcb] at hpn
    rw [hf.inUse] at hpn
    exact h.order p hpl hpn

end

theorem traceStep_represents (cfg : Config) (s : Trace) (c : Call)
    (h : ∃ un ua oo,Represents cfg s un ua oo) : ∃ un ua oo,Represents cfg (traceStep cfg s c) un ua oo := by
  obtain ⟨un,ua,oo,h⟩ := h
  have keep : ∀ {w : Work},SameQueues s.work.tab w.tab →
      ∃ un ua oo,Represents cfg ⟨w,s.clock+1,s.born⟩ un ua oo := fun hw => ⟨un,ua,oo,h.keep hw⟩
  cases c with
  | clear => exact ⟨_,_,_,represents_clear s.work s.born (s.clock+1)⟩
  | openTcb v => exact h.afterOpen v
  | opt a => exact keep (opt_renames a).sameQueues
  | close i => exact h.afterClose i
  | bind a => exact keep (bind_renames).sameQueues
  | connect a => exact keep (connect_renames).sameQueues
  | load i => exact keep (.of_eq (load_tab i))
  | store i vars ctl state => exact keep (store_sameQueues (s.work.image vars ctl state) i)
  | accept i l => exact keep (accept_renames i l).sameQueues
  | listen a => exact keep (.listeners (listen_tab))
  | unlisten i => exact keep (.listeners (unlisten_tab))
  | find a => exact keep (.of_eq (find_tab a))
  | findListener a => exact keep (.of_eq (findListener_tab a))
  | segAlloc a => exact h.afterSegAlloc a
  | segLoad i => exact keep (.of_eq (segLoad_tab))
  | segSent i => exact h.afterSegSent i
  | segFree i => exact h.afterSegFree i
  | oosAlloc a => exact h.afterOosAlloc a
  | oosLoad i => exact keep (.of_eq (oosLoad_tab))
  | oosFree i => exact h.afterOosFree i

/-- The queues a reader finds in the tables. -/
structure QueuesOk (cfg : Config) (s : Trace) : Prop where
  /-- Every list of a connection in use ends in the index that names none. -/
  ends : ∀ p < cfg.tcpPcbs,(s.work.tab.tcb p).inUse →
    Chain s.work.tab.segNext cfg.tcpSegs noneIndex (s.work.tab.tcb p).unsent (unsentList cfg s.work.tab p) ∧
    Chain s.work.tab.segNext cfg.tcpSegs noneIndex (s.work.tab.tcb p).unacked (unackedList cfg s.work.tab p) ∧
    Chain s.work.tab.oosNext cfg.tcpOoseqEntries noneIndex (s.work.tab.tcb p).ooseq (ooseqList cfg s.work.tab p)
  acyclic : ∀ p < cfg.tcpPcbs,(s.work.tab.tcb p).inUse →
    (unsentList cfg s.work.tab p).Nodup ∧ (unackedList cfg s.work.tab p).Nodup ∧ (ooseqList cfg s.work.tab p).Nodup
  /-- A segment in use is on exactly one send list of the connection it names, which is in use. -/
  seg_listed : ∀ i < cfg.tcpSegs,(s.work.tab.seg i).inUse →
    (s.work.tab.seg i).pcb < cfg.tcpPcbs ∧ (s.work.tab.tcb (s.work.tab.seg i).pcb).inUse ∧
      Xor (i∈unsentList cfg s.work.tab (s.work.tab.seg i).pcb) (i∈unackedList cfg s.work.tab (s.work.tab.seg i).pcb)
  /-- A held segment in use is on the held list of the connection it names, which is in use. -/
  oos_listed : ∀ i < cfg.tcpOoseqEntries,(s.work.tab.oos i).inUse →
    (s.work.tab.oos i).pcb < cfg.tcpPcbs ∧ (s.work.tab.tcb (s.work.tab.oos i).pcb).inUse ∧
      i∈ooseqList cfg s.work.tab (s.work.tab.oos i).pcb
  /-- A row on a send list is in use and names that connection. -/
  listed_seg : ∀ p < cfg.tcpPcbs,(s.work.tab.tcb p).inUse → ∀ i,
    i∈unsentList cfg s.work.tab p ∨ i∈unackedList cfg s.work.tab p → (s.work.tab.seg i).inUse ∧ (s.work.tab.seg i).pcb=p
  /-- A row on a held list is in use and names that connection. -/
  listed_oos : ∀ p < cfg.tcpPcbs,(s.work.tab.tcb p).inUse → ∀ i∈ooseqList cfg s.work.tab p,
    (s.work.tab.oos i).inUse ∧ (s.work.tab.oos i).pcb=p
  /-- No connection holds more than its share. -/
  held : ∀ p < cfg.tcpPcbs,(s.work.tab.tcb p).inUse → (ooseqList cfg s.work.tab p).length ≤ cfg.tcpOoseqSegs
  /-- Unacknowledged then unsent segments stand in the order of their allocation. -/
  order : ∀ p < cfg.tcpPcbs,(s.work.tab.tcb p).inUse →
    ((unackedList cfg s.work.tab p++unsentList cfg s.work.tab p).map s.born).Pairwise (·<·)

theorem Represents.queuesOk (h : Represents cfg s unsent unacked ooseq) : QueuesOk cfg s := by
  have hls : ∀ p < cfg.tcpPcbs,(s.work.tab.tcb p).inUse → unsentList cfg s.work.tab p=unsent p ∧
      unackedList cfg s.work.tab p=unacked p ∧ ooseqList cfg s.work.tab p=ooseq p := by
    intro p hp hin
    obtain ⟨hu,ha,-,-⟩ := h.segs.queues p hp hin
    have ho := (h.oos.queues p hp hin).chain
    exact ⟨walk_chain segs_le_none hu (hu.length_le segs_le_none),walk_chain segs_le_none ha (ha.length_le segs_le_none),
      walk_chain ooseq_le_none ho (ho.length_le ooseq_le_none)⟩
  refine ⟨fun p hp hin => ?_,fun p hp hin => ?_,fun i hi hin => ?_,fun i hi hin => ?_,fun p hp hin i hi => ?_,
    fun p hp hin i hi => ?_,fun p hp hin => ?_,fun p hp hin => ?_⟩
  · obtain ⟨hun,hua,hoo⟩ := hls p hp hin
    rw [hun,hua,hoo]
    have hq := h.segs.queues p hp hin
    exact ⟨hq.unsent_chain,hq.unacked_chain,(h.oos.queues p hp hin).chain⟩
  · obtain ⟨hun,hua,hoo⟩ := hls p hp hin
    rw [hun,hua,hoo]
    have hq := nodup_append.mp (h.segs.queues p hp hin).nodup
    exact ⟨hq.2.1,hq.1,(h.oos.queues p hp hin).chain.nodup ooseq_le_none⟩
  · obtain ⟨hp,hpn⟩ := h.segs.owner i hi hin
    obtain ⟨hun,hua,-⟩ := hls _ hp hpn
    refine ⟨hp,hpn,?_⟩
    rw [hun,hua]
    have hq := h.segs.queues _ hp hpn
    have hd := (nodup_append.mp hq.nodup).2.2
    rcases mem_append.mp ((hq.mem i).mpr ⟨hi,hin,rfl⟩) with hm|hm
    · exact .inr ⟨hm,fun hl => hd i hm i hl rfl⟩
    · exact .inl ⟨hm,fun hl => hd i hl i hm rfl⟩
  · obtain ⟨hp,hpn⟩ := h.oos.owner i hi hin
    refine ⟨hp,hpn,?_⟩
    rw [(hls _ hp hpn).2.2]
    exact ((h.oos.queues _ hp hpn).mem i).mpr ⟨hi,hin,rfl⟩
  · rw [(hls p hp hin).1,(hls p hp hin).2.1] at hi
    exact (((h.segs.queues p hp hin).mem i).mp (mem_append.mpr hi.symm)).2
  · rw [(hls p hp hin).2.2] at hi
    exact (((h.oos.queues p hp hin).mem i).mp hi).2
  · rw [(hls p hp hin).2.2]
    exact (h.oos.queues p hp hin).length
  · rw [(hls p hp hin).1,(hls p hp hin).2.1]
    exact h.order p hp hin

/-- Whatever is called after `clear`, the tables hold well-formed queues in allocation order. -/
theorem run_queuesOk (cfg : Config) (w : Work) (calls : List Call) :
    QueuesOk cfg (run (traceStep cfg) ⟨clear w,0,fun _ => 0⟩ calls) := by
  have hrun : ∃ un ua oo,Represents cfg (run (traceStep cfg) ⟨clear w,0,fun _ => 0⟩ calls) un ua oo :=
    run_always (traceStep_represents cfg) ⟨_,_,_,represents_clear w (fun _ => 0) 0⟩
  obtain ⟨un,ua,oo,h⟩ := hrun
  exact h.queuesOk

variable {u v : Work}

/-- What a call does to the tables does not depend on what the last one reported. -/
theorem step_congr (c : Call) (ht : u.tab=w.tab) (hr : u.ready=w.ready) :
    (step cfg u c).tab=(step cfg w c).tab ∧ (step cfg u c).ready=(step cfg w c).ready := by
  obtain ⟨r,t,io⟩ := u
  obtain ⟨r',t',io'⟩ := w
  cases ht
  cases hr
  -- the image of a store is in front of both sides before the entries are unfolded
  cases c <;> dsimp only [step,Work.image] <;> dsimp only [clear,openTcb,opt,close,bind,connect,load,store,accept,listen,
    unlisten,find,findListener,segAlloc,segLoad,segSent,segFree,oosAlloc,oosLoad,oosFree]
  all_goals repeat' split
  all_goals exact ⟨rfl,rfl⟩

variable (cfg w u) in
/-- Calls lead from one to the other, whatever their operand blocks hold. -/
def Reaches : Prop := ∃ cs,u.tab=(run (step cfg) w cs).tab ∧ u.ready=(run (step cfg) w cs).ready

theorem Reaches.same (h : Reaches cfg w u) (ht : v.tab=u.tab) (hr : v.ready=u.ready) : Reaches cfg w v := by
  obtain ⟨cs,h⟩ := h
  exact ⟨cs,ht.trans h.1,hr.trans h.2⟩

theorem Reaches.call (h : Reaches cfg w u) (c : Call) : Reaches cfg w (step cfg u c) := by
  obtain ⟨cs,ht,hr⟩ := h
  refine ⟨cs++[c],?_⟩
  rw [run_append]
  exact step_congr c ht hr

theorem Reaches.represents (h : Reaches cfg (clear w) u) : ∃ n born un ua oo,Represents cfg ⟨u,n,born⟩ un ua oo := by
  obtain ⟨cs,ht,-⟩ := h
  have hk : ∀ v c,(∃ n born un ua oo,Represents cfg ⟨v,n,born⟩ un ua oo) →
      ∃ n born un ua oo,Represents cfg ⟨step cfg v c,n,born⟩ un ua oo := by
    rintro v c ⟨n,born,hv⟩
    exact ⟨n+1,_,traceStep_represents cfg ⟨v,n,born⟩ c hv⟩
  obtain ⟨n,born,un,ua,oo,hr⟩ : ∃ n born un ua oo,Represents cfg ⟨run (step cfg) (clear w) cs,n,born⟩ un ua oo :=
    run_always hk ⟨0,_,_,_,_,represents_clear w (fun _ => 0) 0⟩
  exact ⟨n+1,born,un,ua,oo,hr.keep (.of_eq ht)⟩

end Runs

end IdemIp.TcpPcb
