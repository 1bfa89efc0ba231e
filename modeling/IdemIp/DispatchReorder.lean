import IdemIp.TcpPcbQueues
import IdemIp.DispatchStream
import Mathlib.Algebra.BigOperators.Group.List.Basic

/-!
# Segments out of order

A held segment is threaded in front of the first one that starts farther from
RCV.NXT, with distances unsigned, and `tcp_deliver` looks at the first one alone. A
segment at RCV.NXT draws its octets from RCV.WND; one that is held is delivered
later without drawing anything, so the window tells the two orders apart.
-/

namespace IdemIp.TcpPcb

open IndexChain StepRun SeqSpace List Function Tables

variable (cfg : Config) (p : ℕ)

/-- First numbers of held segments. -/
def seqsOf (t : Tables) (l : List ℕ) : List (BitVec 32) := l.map fun j => (t.oos j).seq

def edgeOf (t : Tables) : BitVec 32 := (t.tcb p).vars.rcvNxt

/-- The held segments of a connection in use stand in order, seen from its RCV.NXT. -/
def HeldAscending (t : Tables) : Prop :=
  (t.tcb p).inUse → Ascending (edgeOf p t) (seqsOf t (ooseqList cfg t p))

/-- The tests `oos_alloc` files a segment by: an open connection with room in its queue, data, and a free row. -/
def oosRoom (w : Work) (a : OosArgs) : Bool :=
  w.ready && decide (a.pcb < cfg.tcpPcbs) && (w.tab.tcb a.pcb).inUse && a.len != 0 &&
    decide ((ooseqList cfg w.tab a.pcb).length < cfg.tcpOoseqSegs) &&
    (firstIndex cfg.tcpOoseqEntries fun i => !(w.tab.oos i).inUse).isSome

/-- The tests `store` takes an image by: an open connection and a permitted transition. -/
def storable (w : Work) (q : ℕ) (state : TcpState) : Bool :=
  w.ready && decide (q < cfg.tcpPcbs) && (w.tab.tcb q).inUse && transitionOk (w.tab.tcb q).state state

theorem oosAlloc_ok_iff (w : Work) (a : OosArgs) : (oosAlloc cfg w a).io.status=.ok ↔ oosRoom cfg w a=true := by
  unfold oosAlloc oosRoom ooseqList
  dsimp only
  split_ifs <;> [skip; skip; skip; split] <;> simp_all [Work.noIndex,Work.took] <;> grind

theorem store_ok_iff (w : Work) (q : ℕ) (vars : TcpVars) (ctl : TcpPcbCtl) (state : TcpState) :
    (store cfg (w.image vars ctl state) q).io.status=.ok ↔ storable cfg w q state=true := by
  have hs : store cfg (w.image vars ctl state) q=
      if !w.ready || cfg.tcpPcbs ≤ q then (w.image vars ctl state).status .err
      else if !(w.tab.tcb q).inUse || !transitionOk (w.tab.tcb q).state state then (w.image vars ctl state).status .err
      else (w.image vars ctl state).done _ := rfl
  rw [hs]
  unfold storable
  split_ifs <;> simp_all [Work.status,Work.done] <;> grind

/-- RCV.NXT only advances, and what is filed lies ahead of it and less than half the space away. -/
def goesForward (w : Work) : Call → Prop
  | .oosAlloc a => a.pcb=p → oosRoom cfg w a → 0<pos (edgeOf p w.tab) a.seq
  | .store q vars _ state => q=p → storable cfg w q state → 0≤pos (edgeOf p w.tab) vars.rcvNxt
  | _ => True

/-- Whether a call files a segment while a held one starts behind RCV.NXT, or some are half the space behind and
others not. -/
def misfiles (w : Work) : Call → Bool
  | .oosAlloc a =>
    a.pcb==p && oosRoom cfg w a &&
      (seqsOf w.tab (ooseqList cfg w.tab p)).any fun x => decide (pos (edgeOf p w.tab) x<0)
  | .store q vars _ state =>
    let l := seqsOf w.tab (ooseqList cfg w.tab p)
    q==p && storable cfg w q state && l.any fun x => l.any fun y =>
        decide (fallsOut (edgeOf p w.tab) vars.rcvNxt x) && !decide (fallsOut (edgeOf p w.tab) vars.rcvNxt y)
  | _ => false

theorem OosOk.ooseqList {t : Tables} {oo : ℕ → List ℕ} (h : OosOk cfg t oo) (hp : p < cfg.tcpPcbs)
    (hu : (t.tcb p).inUse) : ooseqList cfg t p=oo p := by
  have hc := (h.queues p hp hu).chain
  exact walk_chain ooseq_le_none hc (hc.length_le ooseq_le_none)

theorem seqsOf_oosPlaced (t : Tables) (i : ℕ) (l : List ℕ) :
    seqsOf t (oosPlaced t p i l)=place (edgeOf p t) (t.oos i).seq (seqsOf t l) := by
  induction l with
  | nil => rfl
  | cons j l ih =>
    have hb : oosBefore t p (t.oos i).seq j=decide (dist (edgeOf p t) (t.oos i).seq<dist (edgeOf p t) (t.oos j).seq) := rfl
    unfold oosPlaced at ih ⊢
    by_cases hlt : dist (edgeOf p t) (t.oos i).seq<dist (edgeOf p t) (t.oos j).seq
    · rw [takeWhile_cons_of_neg (by simp [hb,hlt]),dropWhile_cons_of_neg (by simp [hb,hlt])]
      simp [seqsOf,place,hlt]
    rw [takeWhile_cons_of_pos (by simp [hb,hlt]),dropWhile_cons_of_pos (by simp [hb,hlt])]
    have hp : place (edgeOf p t) (t.oos i).seq (seqsOf t (j::l))=
        (t.oos j).seq::place (edgeOf p t) (t.oos i).seq (seqsOf t l) := if_neg hlt
    rw [hp,←ih]
    rfl

/-- What one call does to the held segments of a connection. -/
inductive HeldStep (w : Work) (c : Call) (l l' : List ℕ) : Prop
  /-- The connection is not there any more. -/
  | gone (hu : ((step cfg w c).tab.tcb p).inUse=false) (hm : misfiles cfg p w c=false)
  /-- The connection is new and holds nothing. -/
  | fresh (hl : l'=[]) (hm : misfiles cfg p w c=false)
  | kept (hu : (w.tab.tcb p).inUse) (hl : l'.Sublist l)
    (hs : ∀ j∈l',((step cfg w c).tab.oos j).seq=(w.tab.oos j).seq)
    (he : edgeOf p (step cfg w c).tab=edgeOf p w.tab) (hm : misfiles cfg p w c=false)
  | moved (hu : (w.tab.tcb p).inUse) (vars : TcpVars) (ctl : TcpPcbCtl) (state : TcpState)
    (hc : c=.store p vars ctl state) (hok : (store cfg (w.image vars ctl state) p).io.status=.ok) (hl : l'=l)
    (hs : (step cfg w c).tab.oos=w.tab.oos) (he : edgeOf p (step cfg w c).tab=vars.rcvNxt)
  | filed (hu : (w.tab.tcb p).inUse) (hu' : ((step cfg w c).tab.tcb p).inUse) (a : OosArgs) (hc : c=.oosAlloc a) (ha : a.pcb=p)
    (hok : (oosAlloc cfg w a).io.status=.ok)
    (hl : seqsOf (step cfg w c).tab l'=place (edgeOf p w.tab) a.seq (seqsOf w.tab l))
    (he : edgeOf p (step cfg w c).tab=edgeOf p w.tab)

/-- After a call the held lists of every connection are these, and this is what became of one of them. -/
def HeldAfter (w : Work) (c : Call) (oo : ℕ → List ℕ) : Prop :=
  ∃ oo',OosOk cfg (step cfg w c).tab oo' ∧ HeldStep cfg p w c (oo p) (oo' p)

section Step

variable {cfg p} {w : Work} {oo : ℕ → List ℕ}

variable {c : Call}

/-- A connection whose row keeps its use and its RCV.NXT keeps at most what it held. -/
theorem HeldStep.keeps {l l' : List ℕ} (hus : ((step cfg w c).tab.tcb p).inUse=(w.tab.tcb p).inUse)
    (hl : l'.Sublist l) (hs : (w.tab.tcb p).inUse → ∀ j∈l',((step cfg w c).tab.oos j).seq=(w.tab.oos j).seq)
    (he : edgeOf p (step cfg w c).tab=edgeOf p w.tab) (hm : misfiles cfg p w c=false) : HeldStep cfg p w c l l' := by
  cases hu : (w.tab.tcb p).inUse with
  | false => exact .gone (hus.trans hu) hm
  | true => exact .kept hu hl (hs hu) he hm

theorem HeldAfter.same (h : OosOk cfg w.tab oo) (ho : (step cfg w c).tab.oos=w.tab.oos)
    (hu : ∀ q,((step cfg w c).tab.tcb q).inUse=(w.tab.tcb q).inUse)
    (hh : ∀ q,((step cfg w c).tab.tcb q).ooseq=(w.tab.tcb q).ooseq)
    (he : edgeOf p (step cfg w c).tab=edgeOf p w.tab) (hm : misfiles cfg p w c=false) : HeldAfter cfg p w c oo :=
  ⟨oo,h.frame ho hu hh,.keeps (hu p) (List.Sublist.refl _) (fun _ j _ => by rw [ho]) he hm⟩

theorem HeldAfter.refused (h : OosOk cfg w.tab oo) (ht : (step cfg w c).tab=w.tab)
    (hm : misfiles cfg p w c=false) : HeldAfter cfg p w c oo :=
  .same h (by rw [ht]) (fun q => by rw [ht]) (fun q => by rw [ht]) (by rw [ht]) hm

theorem HeldAfter.untouched (h : OosOk cfg w.tab oo) (hc : c.keepsHeld) (hm : misfiles cfg p w c=false) :
    HeldAfter cfg p w c oo := by
  have hs := step_sameHeld cfg (w := w) hc
  exact .same h hs.oos (hs.keeps Tcb.inUse fun _ => rfl) (hs.keeps Tcb.ooseq fun _ => rfl)
    (hs.keeps (fun x => x.vars.rcvNxt) (fun _ => rfl) p) hm

theorem HeldAfter.renamed (h : OosOk cfg w.tab oo) (ht : Renames cfg w.tab (step cfg w c).tab)
    (hm : misfiles cfg p w c=false) : HeldAfter cfg p w c oo := by
  have hq := ht.sameQueues
  refine .same h hq.oos hq.inUse hq.ooseq ?_ hm
  rcases ht with he|⟨i,x,-,-,hx,he⟩
  · rw [he]
  · rw [he]
    exact congrArg TcpVars.rcvNxt (w.tab.setTcb_keeps i Tcb.vars hx.vars p)

theorem OosOk.free_not_mem {t : Tables} {i q : ℕ} (h : OosOk cfg t oo) (hq : q < cfg.tcpPcbs) (hu : (t.tcb q).inUse)
    (hf : (t.oos i).inUse=false) : i∉oo q := by
  intro hm
  have ho := (((h.queues q hq hu).mem i).1 hm).2.1
  rw [hf] at ho
  cases ho

theorem oosAlloc_heldAfter (a : OosArgs) (h : OosOk cfg w.tab oo) (hp : p < cfg.tcpPcbs) :
    HeldAfter cfg p w (.oosAlloc a) oo := by
  rcases oosAlloc_cases cfg w a with ⟨ht,hst⟩|⟨i,hi,hf,hpa,hua,-,hr,he⟩
  · exact .refused h ht (by simp [misfiles,mt (oosAlloc_ok_iff cfg w a).2 hst])
  have htb : (step cfg w (.oosAlloc a)).tab=oosInsert cfg (w.tab.setOos i a.row) a.pcb i := congrArg Work.tab he
  have hok : (oosAlloc cfg w a).io.status=.ok := by
    rw [he]
    rfl
  have hl := h.ooseqList cfg a.pcb hpa hua
  have hin := h.inserted (x := a.row) hpa hua hi hf (by rw [←hl]; exact hr) rfl rfl
  have hrl := oosInsert_relinked cfg (w.tab.setOos i a.row) a.pcb i
  have hs : ∀ j,((step cfg w (.oosAlloc a)).tab.oos j).seq=((w.tab.setOos i a.row).oos j).seq := by
    intro j
    obtain ⟨n,hn⟩ := hrl.oos j
    rw [htb,hn]
  have hrw : ∀ q,((step cfg w (.oosAlloc a)).tab.tcb q).inUse=(w.tab.tcb q).inUse ∧
      edgeOf q (step cfg w (.oosAlloc a)).tab=edgeOf q w.tab := by
    intro q
    obtain ⟨o,ho⟩ := hrl.tcb q
    unfold edgeOf
    rw [htb,ho]
    exact ⟨rfl,rfl⟩
  refine ⟨_,by rw [htb]; exact hin,?_⟩
  have hol : (w.tab.tcb p).inUse → ∀ j∈oo p,((w.tab.setOos i a.row).oos j).seq=(w.tab.oos j).seq := by
    intro hu j hj
    rw [setOos_oos,if_neg]
    rintro rfl
    exact h.free_not_mem hp hu hf hj
  by_cases hap : a.pcb=p
  · subst hap
    refine .filed hua ((hrw a.pcb).1.trans hua) a rfl rfl hok ?_ (hrw a.pcb).2
    rw [update_self]
    have ha : seqsOf (step cfg w (.oosAlloc a)).tab (oosPlaced (w.tab.setOos i a.row) a.pcb i (oo a.pcb))=
        seqsOf (w.tab.setOos i a.row) (oosPlaced (w.tab.setOos i a.row) a.pcb i (oo a.pcb)) :=
      map_congr_left fun j _ => hs j
    have hb : seqsOf (w.tab.setOos i a.row) (oo a.pcb)=seqsOf w.tab (oo a.pcb) := map_congr_left (hol hua)
    rw [ha,seqsOf_oosPlaced,hb,setOos_oos,if_pos rfl]
    rfl
  · rw [update_of_ne (Ne.symm hap)]
    refine .keeps (hrw p).1 (List.Sublist.refl _) (fun hu j hj => (hs j).trans (hol hu j hj)) (hrw p).2 ?_
    simp [misfiles,hap]

theorem oosFree_heldAfter (i : ℕ) (h : OosOk cfg w.tab oo) (hp : p < cfg.tcpPcbs) : HeldAfter cfg p w (.oosFree i) oo := by
  rcases oosFree_cases with ht|⟨hi,hu,-,t,hun,he⟩
  · exact .refused h ht rfl
  have htb : (step cfg w (.oosFree i)).tab=t.setOos i .zero := he
  obtain ⟨v,hv,hf⟩ := h.freed hi hu rfl
  rw [hun] at hv
  cases hv
  have hrl := oosUnlink_relinked hun
  obtain ⟨o,ho⟩ := hrl.tcb p
  have hr : (step cfg w (.oosFree i)).tab.tcb p={w.tab.tcb p with ooseq := o} := by
    rw [htb]
    exact ho
  refine ⟨_,by rw [htb]; exact hf,?_⟩
  have hs : (update oo (w.tab.oos i).pcb ((oo (w.tab.oos i).pcb).erase i) p).Sublist (oo p) := by
    by_cases hpi : p=(w.tab.oos i).pcb
    · rw [hpi,update_self]
      exact erase_sublist
    · rw [update_of_ne hpi]
  refine .keeps (by rw [hr]) hs (fun hup j hj => ?_) ?_ rfl
  · -- the row freed is on no list now
    have hji : j≠i := by
      rintro rfl
      exact hf.free_not_mem hp (by rw [←htb,hr]; exact hup) (by simp [Oos.zero]) hj
    obtain ⟨n,hn⟩ := hrl.oos j
    rw [htb,setOos_oos,if_neg hji,hn]
  · unfold edgeOf
    rw [hr]

theorem store_heldAfter {q : ℕ} {vars : TcpVars} {ctl : TcpPcbCtl} {state : TcpState} (h : OosOk cfg w.tab oo) :
    HeldAfter cfg p w (.store q vars ctl state) oo := by
  have hq : SameQueues w.tab (store cfg (w.image vars ctl state) q).tab := store_sameQueues (w.image vars ctl state) q
  rcases store_cases q with ⟨ht,hst⟩|⟨-,-,hu,-,he⟩
  · exact .refused h ht (by simp [misfiles,mt (store_ok_iff cfg w q vars ctl state).2 (by simp [hst])])
  have hr : ∀ k,(step cfg w (.store q vars ctl state)).tab.tcb k=
      if k=q then {w.tab.tcb q with vars := vars,ctl := ctl,state := state} else w.tab.tcb k := by
    intro k
    show (store cfg (w.image vars ctl state) q).tab.tcb k=_
    rw [he]
    exact setTcb_tcb _ _ _ _
  have hok : (store cfg (w.image vars ctl state) q).io.status=.ok := by
    rw [he]
    rfl
  by_cases hqp : q=p
  · subst hqp
    refine ⟨oo,h.frame hq.oos hq.inUse hq.ooseq,.moved hu vars ctl state rfl hok rfl hq.oos ?_⟩
    unfold edgeOf
    rw [hr,if_pos rfl]
  · refine .same h hq.oos hq.inUse hq.ooseq ?_ (by simp [misfiles,hqp])
    unfold edgeOf
    rw [hr,if_neg (Ne.symm hqp)]

theorem step_heldAfter (c : Call) (h : OosOk cfg w.tab oo) (hp : p < cfg.tcpPcbs) : HeldAfter cfg p w c oo := by
  cases c with
  | clear => exact ⟨fun _ => [],(represents_clear w (fun _ => 0) 0).oos,.fresh rfl rfl⟩
  | openTcb v =>
    rcases openTcb_cases with ⟨ht,-⟩|⟨i,-,-,hf,-,he⟩
    · exact .refused h ht rfl
    have htb : (step cfg w (.openTcb v)).tab=w.tab.setTcb i (Tcb.opened cfg v) := congrArg Work.tab he
    refine ⟨_,by rw [htb]; exact h.opened hf v,?_⟩
    by_cases hpi : p=i
    · exact .fresh (by rw [hpi,update_self]) rfl
    have hr : (step cfg w (.openTcb v)).tab.tcb p=w.tab.tcb p := by
      rw [htb,setTcb_tcb,if_neg hpi]
    rw [update_of_ne hpi]
    refine .keeps (by rw [hr]) (List.Sublist.refl _) (fun _ j _ => by rw [htb]; rfl) ?_ rfl
    unfold edgeOf
    rw [hr]
  | close q =>
    rcases close_cases q with ht|⟨hq,huq,hem,ht⟩
    · exact .refused h ht rfl
    have htb : (step cfg w (.close q)).tab=(sendQueuesFree cfg w.tab q).setTcb q .zero := ht
    have hf := sendQueuesFree_sameHeld cfg w.tab q
    refine ⟨oo,by rw [htb]; exact h.closed hq huq hem,?_⟩
    by_cases hpq : p=q
    · refine .gone ?_ rfl
      rw [htb,setTcb_tcb,if_pos hpq]
      rfl
    have hr : (step cfg w (.close q)).tab.tcb p=(sendQueuesFree cfg w.tab q).tcb p := by
      rw [htb,setTcb_tcb,if_neg hpq]
    refine .keeps ?_ (List.Sublist.refl _) (fun _ j _ => ?_) ?_ rfl
    · rw [hr]
      exact hf.keeps Tcb.inUse (fun _ => rfl) p
    · rw [htb]
      exact congrArg (fun f => (f j).seq) hf.oos
    · unfold edgeOf
      rw [hr]
      exact hf.keeps (fun x => x.vars.rcvNxt) (fun _ => rfl) p
  | opt a => exact .renamed h (opt_renames a) rfl
  | bind a => exact .renamed h (bind_renames) rfl
  | connect a => exact .renamed h (connect_renames) rfl
  | accept q l => exact .renamed h (accept_renames q l) rfl
  | store q vars ctl state => exact store_heldAfter h
  | listen a =>
    have hq : SameQueues w.tab (listen cfg w a).tab := .listeners (listen_tab)
    refine .same h hq.oos hq.inUse hq.ooseq ?_ rfl
    show edgeOf p (listen cfg w a).tab=_
    rw [listen_tab]
    rfl
  | unlisten i =>
    have hq : SameQueues w.tab (unlisten cfg w i).tab := .listeners (unlisten_tab)
    refine .same h hq.oos hq.inUse hq.ooseq ?_ rfl
    show edgeOf p (unlisten cfg w i).tab=_
    rw [unlisten_tab]
    rfl
  | oosAlloc a => exact oosAlloc_heldAfter a h hp
  | oosFree i => exact oosFree_heldAfter i h hp
  | _ => exact .untouched h rfl rfl

/-- A call of a run that goes forward leaves the order exactly when it does not misfile. -/
theorem step_heldAscending_iff {w : Work} {c : Call} (h : ∃ oo,OosOk cfg w.tab oo) (hp : p < cfg.tcpPcbs)
    (hf : goesForward cfg p w c) (ha : HeldAscending cfg p w.tab) :
    HeldAscending cfg p (step cfg w c).tab ↔ misfiles cfg p w c=false := by
  obtain ⟨oo,hoo⟩ := h
  obtain ⟨oo',hoo',hst⟩ := step_heldAfter c hoo hp
  have hb : (w.tab.tcb p).inUse → ooseqList cfg w.tab p=oo p := hoo.ooseqList cfg p hp
  have haf : ((step cfg w c).tab.tcb p).inUse → ooseqList cfg (step cfg w c).tab p=oo' p :=
    hoo'.ooseqList cfg p hp
  cases hst with
  | gone hu hm =>
    refine iff_of_true (fun hu' => ?_) hm
    rw [hu] at hu'
    cases hu'
  | fresh hl hm =>
    refine iff_of_true (fun hu' => ?_) hm
    rw [haf hu',hl]
    exact List.Pairwise.nil
  | kept hu hl hs he hm =>
    refine iff_of_true (fun hu' => ?_) hm
    have hsm : seqsOf (step cfg w c).tab (oo' p)=seqsOf w.tab (oo' p) := map_congr_left hs
    have ho := ha hu
    rw [hb hu] at ho
    rw [haf hu',he,hsm]
    exact ho.sublist (hl.map _)
  | moved hu vars ctl state hc hok hl hs he =>
    subst hc
    have ho := ha hu
    have hu' : ((step cfg w (.store p vars ctl state)).tab.tcb p).inUse :=
      ((store_sameQueues (w.image vars ctl state) p).inUse p).trans hu
    have hsm : seqsOf (step cfg w (.store p vars ctl state)).tab (oo' p)=seqsOf w.tab (ooseqList cfg w.tab p) := by
      unfold seqsOf
      rw [hs,hl,hb hu]
    have hi : HeldAscending cfg p (step cfg w (.store p vars ctl state)).tab ↔
        Ascending vars.rcvNxt (seqsOf w.tab (ooseqList cfg w.tab p)) := by
      unfold HeldAscending
      rw [haf hu',he,hsm]
      exact ⟨fun hx => hx hu',fun hx _ => hx⟩
    rw [store_ok_iff] at hok
    rw [hi,forward_ascending_iff ho (hf rfl hok)]
    simp [misfiles,hok]
  | filed hu hu' a hc hap hok hl he =>
    subst hc
    have ho := ha hu
    have hi : HeldAscending cfg p (step cfg w (.oosAlloc a)).tab ↔
        Ascending (edgeOf p w.tab) (place (edgeOf p w.tab) a.seq (seqsOf w.tab (ooseqList cfg w.tab p))) := by
      unfold HeldAscending
      rw [haf hu',he,hl,hb hu]
      exact ⟨fun hx => hx hu',fun hx _ => hx⟩
    rw [oosAlloc_ok_iff] at hok
    rw [hi,place_ascending_iff ho (hf hap hok)]
    simp [misfiles,hok,hap]

end Step

end IdemIp.TcpPcb

namespace IdemIp.Dispatch

open StepRun SeqSpace
open TcpPcb (OosOk OosOwned Call edgeOf seqsOf HeldAscending goesForward misfiles)

/-- A number is one of the octets held. -/
def Contains (o : TcpPcb.Oos) (x : BitVec 32) : Prop := (x-o.seq).toNat<o.len.toNat

instance (o : TcpPcb.Oos) (x : BitVec 32) : Decidable (Contains o x) :=
  inferInstanceAs (Decidable ((x-o.seq).toNat<o.len.toNat))

theorem Contains.pos_nonpos {o : TcpPcb.Oos} {edge : BitVec 32} (h : Contains o edge) : pos edge o.seq≤0 := by
  apply SeqSpace.pos_nonpos
  have hlen := o.len.isLt
  have hnear : (dist o.seq edge).toNat<o.len.toNat := h
  omega

/-- The test `tcp_deliver` makes of the first held segment. -/
theorem aheadOf_pos {seq edge : BitVec 32} (h : aheadOf seq edge=true) : 0<pos edge seq := by
  have hs : seq-edge≠0 ∧ seq-edge<0x80000000 := by simpa [aheadOf] using h
  have hne : (dist edge seq).toNat≠0 := fun h0 => hs.1 (BitVec.eq_of_toNat_eq h0)
  have hlt : (dist edge seq).toNat<0x80000000 := BitVec.lt_def.1 hs.2
  have hc := BitVec.toInt_eq_toNat_cond (dist edge seq)
  unfold pos
  rw [if_pos (by omega)] at hc
  omega

section Busy

variable {cfg : Config} {s : Side} {p : ℕ}

/-- BUSY says that nothing is held, or that the first held segment starts ahead of RCV.NXT. -/
theorem tcpDeliver_busy (h : (tcpDeliver cfg s p).io.status=.busy) : HeldAhead cfg s p := by
  have hrt := tcpDeliver_route cfg s p
  generalize tcpDeliver cfg s p=u at hrt h
  cases hrt with
  | refused io hac hg hc hb =>
    rw [hb] at h
    cases h
  | idle w io ht hr hac hg hc hb => exact hb h
  | held w ht hr hi hu hv hj hju ha hg => cases h

/-- Where the held segments stand in order, BUSY is reported only when none contains RCV.NXT. -/
theorem busy_contains {oo : ℕ → List ℕ} (hoo : OosOk cfg s.tcpPcb.tab oo) (ha : HeldAscending cfg p s.tcpPcb.tab)
    (hb : (tcpDeliver cfg s p).io.status=.busy) {j : ℕ} (hj : OosOwned cfg s.tcpPcb.tab p j) :
    ¬Contains (s.tcpPcb.tab.oos j) (edgeOf p s.tcpPcb.tab) := by
  intro hc
  obtain ⟨hp,hu,hh⟩ := tcpDeliver_busy hb
  have hq := hoo.queues p hp hu
  have has := ha hu
  rw [hoo.ooseqList cfg p hp hu] at has
  have hm := (hq.mem j).2 hj
  have hch := hq.chain
  cases hl : oo p with
  | nil =>
    rw [hl] at hm
    cases hm
  | cons i l =>
    rw [hl] at has hm hch
    have hi : (s.tcpPcb.tab.tcb p).ooseq=i := hch.1
    have hne : (s.tcpPcb.tab.tcb p).ooseq≠noneIndex := by
      rw [hi]
      exact (hch.2.1.trans_le TcpPcb.ooseq_le_none).ne
    have hf := aheadOf_pos (hh.resolve_left hne)
    rw [hi] at hf
    have hbc := hc.pos_nonpos
    have hle : pos (edgeOf p s.tcpPcb.tab) (s.tcpPcb.tab.oos i).seq≤pos (edgeOf p s.tcpPcb.tab) (s.tcpPcb.tab.oos j).seq := by
      rcases List.mem_cons.1 hm with rfl|hm
      · exact le_rfl
      · exact (List.pairwise_cons.1 has).1 _ (List.mem_map_of_mem hm)
    exact absurd (hf.trans_le hle) (not_lt.2 hbc)

end Busy

/-- The held segments stand in order, and `tcp_deliver` reports BUSY only when none of them contains RCV.NXT. -/
def HeldInOrder (cfg : Config) (p : ℕ) (t : TcpPcb.Tables) : Prop :=
  HeldAscending cfg p t ∧ ∀ s : Side,s.tcpPcb.tab=t → (tcpDeliver cfg s p).io.status=.busy →
    ∀ j,OosOwned cfg t p j → ¬Contains (t.oos j) (edgeOf p t)

/-- While RCV.NXT only advances and what is filed lies ahead, the held segments stay in order exactly when no call
misfiles. -/
theorem run_heldInOrder_iff (cfg : Config) (p : ℕ) (hp : p < cfg.tcpPcbs) (w : TcpPcb.Work) (cs : List Call)
    (hf : Along (TcpPcb.step cfg) (goesForward cfg p) (TcpPcb.clear w) cs) :
    (∀ n,HeldInOrder cfg p (run (TcpPcb.step cfg) (TcpPcb.clear w) (cs.take n)).tab) ↔
      Along (TcpPcb.step cfg) (fun x c => misfiles cfg p x c=false) (TcpPcb.clear w) cs := by
  have hkeep : ∀ x c,(∃ oo,OosOk cfg x.tab oo) → ∃ oo,OosOk cfg (TcpPcb.step cfg x c).tab oo := by
    rintro x c ⟨oo,hoo⟩
    obtain ⟨oo',hoo',-⟩ := TcpPcb.step_heldAfter (p := p) c hoo hp
    exact ⟨oo',hoo'⟩
  have hclear : ∃ oo,OosOk cfg (TcpPcb.clear w).tab oo := ⟨_,(TcpPcb.represents_clear w (fun _ => 0) 0).oos⟩
  have hempty : HeldAscending cfg p (TcpPcb.clear w).tab := nofun
  have hevery : (∀ n,HeldAscending cfg p (run (TcpPcb.step cfg) (TcpPcb.clear w) (cs.take n)).tab) ↔
      HeldAscending cfg p (TcpPcb.clear w).tab ∧
        Along (TcpPcb.step cfg) (fun x c => misfiles cfg p x c=false) (TcpPcb.clear w) cs :=
    every_iff_along_of hkeep (fun x c hoo hrule => TcpPcb.step_heldAscending_iff hoo hp hrule) hclear hf
  rw [and_iff_right hempty] at hevery
  rw [←hevery]
  refine forall_congr' fun n => ⟨fun h => h.1,fun h => ⟨h,fun s hs hb j hj => ?_⟩⟩
  obtain ⟨oo,hoo⟩ : ∃ oo,OosOk cfg (run (TcpPcb.step cfg) (TcpPcb.clear w) (cs.take n)).tab oo := run_always hkeep hclear
  rw [←hs] at hoo h hj ⊢
  exact busy_contains hoo h hb hj

/-- A connection with RCV.NXT at 100 holds [110,120), moves on to 115, and then files [130,135). -/
def overtaking : List Call :=
  [.openTcb 4,.store 0 {TcpVars.zero with rcvNxt := 100} .zero .synSent,.oosAlloc ⟨110,0,0,54,10⟩,
    .store 0 {TcpVars.zero with rcvNxt := 115} .zero .synSent,.oosAlloc ⟨130,0,1,54,5⟩]

/-- The tables before anything is called. -/
def unused : TcpPcb.Work := ⟨false,.zero,⟨.zero,.zero,.closed,.err,0,0,.zero,.zero,.zero⟩⟩

/-- It holds [130,135), files [110,120) in front, and moves on to 105. -/
def ahead : List Call :=
  [.openTcb 4,.store 0 {TcpVars.zero with rcvNxt := 100} .zero .synSent,.oosAlloc ⟨130,0,0,54,5⟩,
    .oosAlloc ⟨110,0,1,54,10⟩,.store 0 {TcpVars.zero with rcvNxt := 105} .zero .synSent]

/-- Two held segments stay in order. -/
theorem run_heldInOrder_iff_ahead :
    TcpPcb.ooseqList .shipped (run (TcpPcb.step .shipped) (TcpPcb.clear unused) ahead).tab 0=[1,0] ∧
      Along (TcpPcb.step .shipped) (goesForward .shipped 0) (TcpPcb.clear unused) ahead ∧
      ∀ n,HeldInOrder .shipped 0 (run (TcpPcb.step .shipped) (TcpPcb.clear unused) (ahead.take n)).tab := by
  have hf : Along (TcpPcb.step .shipped) (goesForward .shipped 0) (TcpPcb.clear unused) ahead :=
    ⟨trivial,fun _ _ => by decide +kernel,fun _ _ => by decide +kernel,fun _ _ => by decide +kernel,
      fun _ _ => by decide +kernel,trivial⟩
  refine ⟨by decide +kernel,hf,(run_heldInOrder_iff .shipped 0 (by decide) unused ahead hf).2 ?_⟩
  exact ⟨rfl,by decide +kernel,by decide +kernel,by decide +kernel,by decide +kernel,trivial⟩

/-- The last call files its segment in front of the overtaken one, and `tcp_deliver` reports BUSY although RCV.NXT is
in row 0. -/
theorem overtaking_misfiles : (Along (TcpPcb.step .shipped) (goesForward .shipped 0) (TcpPcb.clear unused) overtaking ∧
      ¬HeldAscending .shipped 0 (run (TcpPcb.step .shipped) (TcpPcb.clear unused) overtaking).tab) ∧
    let t := run (step .shipped) (Stack.talking .established)
      [said 510 tcpAck (List.replicate 10 1) 0,said 500 tcpAck (List.replicate 15 2) 1,said 530 tcpAck (List.replicate 5 3) 2]
    (tcpDeliver .shipped t.side 0).io.status=.busy ∧ OosOwned .shipped t.tab 0 0 ∧ edgeOf 0 t.tab=515 ∧
      Contains (t.tab.oos 0) 515 ∧ ¬HeldInOrder .shipped 0 t.tab := by
  refine ⟨⟨⟨trivial,fun _ _ => by decide +kernel,fun _ _ => by decide +kernel,fun _ _ => by decide +kernel,
    fun _ _ => by decide +kernel,trivial⟩,fun h => ?_⟩,by decide +kernel,?_,by decide +kernel,by decide +kernel,fun h => ?_⟩
  · have hfirst := (List.pairwise_cons.1 (h (by decide +kernel))).1
    exact absurd (hfirst 110 (by decide +kernel)) (by decide +kernel)
  · exact ⟨by decide,by decide +kernel,by decide +kernel⟩
  · exact h.2 _ rfl (by decide +kernel) 0 ⟨by decide,by decide +kernel,by decide +kernel⟩ (by decide +kernel)

open TcpIn BitVec Nat TcpPcb

/-- Two stacks on which a frame finds the same way to TCP. -/
structure SameWire (s t : Stack) : Prop where
  bound : t.bound=s.bound
  ready : t.side.ready=s.side.ready
  tagged : ∀ n,(t.side.ifRow n).tagged=(s.side.ifRow n).tagged
  vid : ∀ n,(t.side.ifRow n).vid=(s.side.ifRow n).vid

theorem SameWire.refl (s : Stack) : SameWire s s := ⟨rfl,rfl,fun _ => rfl,fun _ => rfl⟩

theorem SameWire.trans {s t u : Stack} (h : SameWire s t) (h' : SameWire t u) : SameWire s u :=
  ⟨h'.bound.trans h.bound,h'.ready.trans h.ready,fun n => (h'.tagged n).trans (h.tagged n),
    fun n => (h'.vid n).trans (h.vid n)⟩

theorem SameWire.of_rows {s t : Stack} (hb : t.bound=s.bound) (hr : t.side.ready=s.side.ready)
    (hrw : t.side.ifRow=s.side.ifRow) : SameWire s t :=
  ⟨hb,hr,fun n => by rw [hrw],fun n => by rw [hrw]⟩

section Wire

variable {cfg : Config} {e : Env} {s t : Stack} {a : InputArgs}

theorem dLink_snd (s : Stack) (fr : Octets) : (dLink s a fr).2=
      if a.len<14 || !s.bound.vlan then none
      else (Vlan.parse fr a.len).bind fun v =>
        if !v.tagged || (v.vid != Vlan.vidReserved && (!(s.side.ifRow s.side.io.netif).tagged ||
          v.vid==(s.side.ifRow s.side.io.netif).vid)) then some v.payloadOff else none := by
  unfold dLink
  by_cases hl : a.len<14
  · simp [hl]
  cases hb : s.bound.vlan with
  | false => simp [hl]
  | true =>
    cases Vlan.parse fr a.len with
    | none => simp [hl]
    | some v =>
      cases ht : v.tagged with
      | false => simp [hl,ht]
      | true =>
        by_cases hr : v.vid=Vlan.vidReserved
        · simp [hl,ht,hr]
        have hrw : (s.mapIo fun io => io.linked v).side.ifRow (s.side.io.linked v).netif=s.side.ifRow s.side.io.netif := rfl
        by_cases hm : (s.side.ifRow s.side.io.netif).tagged=false ∨ v.vid=(s.side.ifRow s.side.io.netif).vid
        · simp [hl,ht,hr,hrw,hm]
        · simp [hl,ht,hr,hrw,hm]

theorem dLink_sameWire {fr : Octets} (h : SameWire s t) : (dLink (entered t a) a fr).2=(dLink (entered s a) a fr).2 := by
  have hv : (entered t a).bound.vlan=(entered s a).bound.vlan := congrArg Bound.vlan h.bound
  have ht : ((entered t a).side.ifRow (entered t a).side.io.netif).tagged=
    ((entered s a).side.ifRow (entered s a).side.io.netif).tagged := h.tagged a.netif
  have hvd : ((entered t a).side.ifRow (entered t a).side.io.netif).vid=
    ((entered s a).side.ifRow (entered s a).side.io.netif).vid := h.vid a.netif
  rw [dLink_snd,dLink_snd,hv,ht,hvd]

theorem payloadNet_congr {s t : Stack} {fr : Octets} {off : ℕ} (hio : t.side.io=s.side.io) (hb : t.bound=s.bound) :
    payloadNet cfg e t a fr off=payloadNet cfg e s a fr off := by
  let net : Io → Bound → Option Io := fun io b =>
    payloadNet cfg e {s with side := {s.side with io := io},bound := b} a fr off
  show net t.side.io t.bound=net s.side.io s.bound
  rw [hio,hb]

theorem arrival_sameWire (h : SameWire s t) : arrival cfg e t a=arrival cfg e s a := by
  unfold arrival payloadOf
  cases a.frame with
  | none => rfl
  | some fr =>
    dsimp only
    rw [h.ready,dLink_sameWire h]
    cases hl : (dLink (entered s a) a fr).2 with
    | none => rfl
    | some off =>
      have hp : ∀ x : Stack,(dLink (entered x a) a fr).2=some off →
          ∃ v,Vlan.parse fr a.len=some v ∧ (dLink (entered x a) a fr).1=(entered x a).withIo ((entered x a).side.io.linked v) := by
        intro x hx
        have hr : _ ∨ _ ∧ Off cfg (entered x a) a.netif a (dLink (entered x a) a fr).1 ∧ _ := dLink_route (entered_clean x a)
        rcases hr with ⟨v,hv,hd⟩|⟨hno,-⟩
        · exact ⟨v,hv,by rw [hd]⟩
        · rw [hno] at hx
          cases hx
      obtain ⟨v,hv,hs⟩ := hp s hl
      obtain ⟨v',hv',ht⟩ := hp t ((dLink_sameWire h).trans hl)
      rw [hv] at hv'
      cases hv'
      have hio : (dLink (entered t a) a fr).1.side.io=(dLink (entered s a) a fr).1.side.io := by
        rw [hs,ht]
        rfl
      have hb : (dLink (entered t a) a fr).1.bound=(dLink (entered s a) a fr).1.bound := by
        rw [hs,ht]
        exact h.bound
      dsimp only
      rw [payloadNet_congr hio hb]

theorem dTcp_rows {cfg : Config} {a : InputArgs} {s : Side} {fr lip rip : Octets} {ver : ℕ} :
    (dTcp cfg s a fr lip rip ver).ready=s.ready ∧ (dTcp cfg s a fr lip rip ver).ifRow=s.ifRow := by
  have hroute := dTcp_route cfg s a fr lip rip ver
  generalize dTcp cfg s a fr lip rip ver=u at hroute ⊢
  cases hroute with
  | ends tp ti io htab hr hk hd hf => exact ⟨rfl,rfl⟩
  | segment i hi =>
    have hran := dTcpSegment_ran cfg (loadedAt cfg s fr lip rip ver i) a i
    exact ⟨hran.rest.1,hran.rest.2.2.2.2.2.2⟩
  | syn l i hn hl hp hsyn hi hfree hopen =>
    rcases openedAt_accept cfg hl hi hopen (header (segOf s fr)).dstPort (header (segOf s fr)).srcPort
      with ⟨tp,ti,io,he,-⟩ | ⟨tp,ti,he,-⟩
    · rw [he]
      exact ⟨rfl,rfl⟩
    · rw [he]
      exact ⟨rfl,rfl⟩

theorem input_sameWire : SameWire s (input cfg e s a) := by
  rcases input_route cfg e s a with ⟨r,hr,hd⟩|⟨hr,hd⟩
  · obtain ⟨hrd,hrw⟩ := dTcp_rows
    rw [hd]
    exact .of_rows rfl hrd hrw
  generalize input cfg e s a=u at hd ⊢
  cases hd with
  | ends io ifRow hio hrw =>
    refine ⟨rfl,rfl,fun n => ?_,fun n => ?_⟩
    · obtain ⟨v,hv⟩ := hrw n
      show (ifRow n).tagged=_
      rw [hv]
    · obtain ⟨v,hv⟩ := hrw n
      show (ifRow n).vid=_
      rw [hv]
  | arp io hio x => exact .of_rows rfl rfl rfl
  | frag4 io hio h4 hn ip4 =>
    obtain ⟨ring,io',re,he,-⟩ := dIp4Frag_frame cfg (s.withIo io) a ip4
    rw [he]
    exact .of_rows rfl rfl rfl
  | frag6 io hio hn fr ip6 hfr hip hs =>
    obtain ⟨ring,io',re,he,-⟩ := dIp6Frag_frame cfg (s.withIo io) a ip6 _ _
    rw [he]
    exact .of_rows rfl rfl rfl

theorem deliver_sameWire (p : ℕ) : SameWire s (s.onSide fun x => tcpDeliver cfg x p) := by
  have hrt := tcpDeliver_route cfg s.side p
  unfold Stack.onSide
  dsimp only
  generalize tcpDeliver cfg s.side p=u at hrt ⊢
  cases hrt with
  | refused io hac hg hc hb => exact .of_rows rfl rfl rfl
  | idle w io ht hr hac hg hc hb => exact .of_rows rfl rfl rfl
  | held w ht hr hi hu hv hj hju ha hg =>
    unfold releaseHeld deliverHeld
    dsimp only
    split_ifs <;> exact .of_rows rfl rfl rfl

end Wire

/-- The first number of a segment's data, and how much there is. -/
def Arrival.extent (r : Arrival) : BitVec 32×BitVec 16 :=
  ((TcpIn.header r.seg).seq,BitVec.ofNat 16 r.io.payloadLen-BitVec.ofNat 16 (TcpIn.header r.seg).hdrLen)

variable {w : TcpIn.Work}

theorem enteredBy_extent {cfg : Config} {e : Env} {s : Stack} {a : InputArgs} {p : ℕ} (h : enteredBy cfg e s a p=some w) :
    ∃ r,arrival cfg e s a=some r ∧ w.io.seg.seq=r.extent.1 ∧ w.io.seg.dataLen=r.extent.2 := by
  obtain ⟨r,hr,hw⟩ := Option.bind_eq_some_iff.1 h
  split_ifs at hw with hs
  cases hw
  obtain ⟨-,hok⟩ := segmentOf_some hs
  obtain ⟨q,hq,hrd,-⟩ := parse_ok hok
  have hq' : r.seg=q := Option.some.inj hq
  refine ⟨r,hr,?_,?_⟩
  · show (parse _ _).io.seg.seq=_
    rw [hrd,←hq']
    rfl
  · show (parse _ _).io.seg.dataLen=_
    rw [hrd,←hq']
    rfl

/-- A frame with what the units outside answer to it. -/
structure Frame where
  env : Env
  args : InputArgs

/-- A stack, and the numbers of the octets one connection was delivered, in order. -/
structure Listening where
  stack : Stack
  stream : List (BitVec 32)

section Listen

variable (cfg : Config) (p : ℕ)

/-- The octets a report delivers. -/
def octetsFor (u : Side) : List (BitVec 32) :=
  if deliversFor u p then (List.range u.io.textLen.toNat).map fun i => u.io.textSeq+BitVec.ofNat 32 i else []

/-- Make one call and note what it delivers. -/
def Listening.call (x : Listening) (ev : Traffic) : Listening :=
  ⟨step cfg x.stack ev,x.stream++octetsFor p (step cfg x.stack ev).side⟩

/-- Call `tcp_deliver` as long as it reports OK, so many times at most. -/
def drain : ℕ → Listening → Listening
  | 0,x => x
  | n+1,x =>
    let y := x.call cfg p (.deliver p)
    if y.stack.side.io.status=.ok then drain n y else y

/-- Dispatch a frame and call `tcp_deliver` until BUSY; each call but the last frees a held segment. -/
def arrive (x : Listening) (f : Frame) : Listening :=
  drain cfg p (cfg.tcpOoseqEntries+1) (x.call cfg p (.input f.env f.args))

variable {cfg p}

variable {x : Listening}

theorem drain_keeps {inv : Listening → Prop} (hc : ∀ x,inv x → inv (x.call cfg p (.deliver p))) (n : ℕ)
    (hx : inv x) : inv (drain cfg p n x) := by
  induction n generalizing x with
  | zero => exact hx
  | succ n ih =>
    unfold drain
    dsimp only
    split_ifs
    · exact ih (hc x hx)
    · exact hc x hx

/-- A connection out of SYN-SENT on a stack with the wire of another. -/
structure Hears (p : ℕ) (s : Stack) (x : Listening) : Prop where
  opened : Opened p x.stack
  wire : SameWire s x.stack

theorem call_hears {s : Stack} (x : Listening) (ev : Traffic) (hev : SameWire x.stack (step cfg x.stack ev))
    (h : Hears p s x) : Hears p s (x.call cfg p ev) :=
  ⟨step_opened cfg p x.stack ev h.opened,h.wire.trans hev⟩

theorem arrive_hears {s : Stack} (x : Listening) (f : Frame) (h : Hears p s x) : Hears p s (arrive cfg p x f) := by
  have hc : ∀ y,Hears p s y → Hears p s (y.call cfg p (.deliver p)) :=
    fun y hy => call_hears y (.deliver p) (deliver_sameWire p) hy
  exact drain_keeps hc (cfg.tcpOoseqEntries+1) (call_hears x (.input f.env f.args) input_sameWire h)

variable (cfg p)

/-- Octets of text taken from a frame as it arrives. -/
def takenAt (x : Listening) (f : Frame) : ℕ := (directText cfg x.stack p (.input f.env f.args)).toNat

def wndOf (x : Listening) : ℕ := (x.stack.tab.tcb p).vars.rcvWnd.toNat

variable {cfg p}

theorem arrive_wnd {s : Stack} (x : Listening) (f : Frame) (h : Hears p s x) :
    wndOf p (arrive cfg p x f)+takenAt cfg p x f=wndOf p x := by
  have hin : Moved cfg x.stack p (.input f.env f.args) (step cfg x.stack (.input f.env f.args)) :=
    step_moved _ h.opened.1 h.opened.2
  have hd : wndOf p (x.call cfg p (.input f.env f.args))+takenAt cfg p x f=wndOf p x := by
    have hle := le_def.1 hin.window
    have hw : (x.call cfg p (.input f.env f.args)).stack.tab.tcb p=
      (step cfg x.stack (.input f.env f.args : Traffic)).tab.tcb p := rfl
    unfold wndOf takenAt
    rw [hw,hin.rcvWnd,toNat_sub_of_le hin.window]
    omega
  have hk : ∀ y,Hears p s y ∧ wndOf p y=wndOf p (x.call cfg p (.input f.env f.args)) →
      Hears p s (y.call cfg p (.deliver p)) ∧
        wndOf p (y.call cfg p (.deliver p))=wndOf p (x.call cfg p (.input f.env f.args)) := by
    rintro y ⟨hy,hw⟩
    have hm : Moved cfg y.stack p (.deliver p) (step cfg y.stack (.deliver p)) := step_moved _ hy.opened.1 hy.opened.2
    refine ⟨call_hears y (.deliver p) (deliver_sameWire p) hy,?_⟩
    rw [←hw]
    show ((step cfg y.stack (.deliver p : Traffic)).tab.tcb p).vars.rcvWnd.toNat=_
    rw [hm.rcvWnd]
    simp [directText,wndOf]
  have hdr := drain_keeps hk (cfg.tcpOoseqEntries+1) ⟨call_hears x (.input f.env f.args) input_sameWire h,rfl⟩
  unfold arrive
  rw [hdr.2]
  exact hd

end Listen

section Drain

variable {cfg : Config} {p : ℕ}

/-- A connection in use on a stack in order, with the rows of its held segments. -/
structure Holding (cfg : Config) (p : ℕ) (s : Side) (l : List ℕ) : Prop where
  ready : s.ready
  bound : s.tcpPcbBound
  tables : s.tcpPcb.ready
  lt : p < cfg.tcpPcbs
  used : (s.tcpPcb.tab.tcb p).inUse
  queue : ∃ oo,TcpPcb.OosOk cfg s.tcpPcb.tab oo ∧ oo p=l

variable {l : List ℕ}

theorem Holding.head {s : Side} (h : Holding cfg p s l) : (l=[] ∧ (s.tcpPcb.tab.tcb p).ooseq=noneIndex) ∨
      ∃ l',l=(s.tcpPcb.tab.tcb p).ooseq::l' ∧ TcpPcb.OosOwned cfg s.tcpPcb.tab p (s.tcpPcb.tab.tcb p).ooseq := by
  obtain ⟨oo,hoo,rfl⟩ := h.queue
  have hq := hoo.queues p h.lt h.used
  have hc := hq.chain
  have hm := hq.mem
  cases hl : oo p with
  | nil =>
    rw [hl] at hc
    exact .inl ⟨rfl,hc⟩
  | cons i l' =>
    rw [hl] at hc hm
    have hi : (s.tcpPcb.tab.tcb p).ooseq=i := hc.1
    rw [hi]
    exact .inr ⟨l',rfl,(hm i).1 List.mem_cons_self⟩

/-- A re-delivery reports OK when RCV.NXT has reached the first held segment, and BUSY otherwise. -/
theorem tcpDeliver_status {s : Side} (h : Holding cfg p s l) :
    (tcpDeliver cfg s p).io.status=if heldReached cfg s p then .ok else .busy := by
  have hl : load cfg (deliverSide cfg s s.tcpPcb {s.io.reset with status := .err}).tcpPcb p=readTcb s.tcpPcb p :=
    load_eq cfg h.tables h.lt h.used
  have hh : (readTcb s.tcpPcb p).io.info.ooseq=(s.tcpPcb.tab.tcb p).ooseq := rfl
  unfold tcpDeliver
  dsimp only
  rw [if_neg (by simp [h.ready]),if_neg (by simp [h.bound,h.lt]),unpinned_eq]
  unfold deliverFrom
  simp only [hl,hh]
  rw [if_neg (by simp [readTcb])]
  rcases h.head with ⟨-,hn⟩|⟨l',-,hj,hju,-⟩
  · rw [if_pos hn]
    simp [heldReached,hn]
  have hne : (s.tcpPcb.tab.tcb p).ooseq≠noneIndex := (hj.trans_le ooseq_le_none).ne
  rw [if_neg hne]
  rcases oosLoad_cases cfg (readTcb s.tcpPcb p) (s.tcpPcb.tab.tcb p).ooseq with ⟨o,-,hno⟩|⟨-,-,-,ho⟩
  · exact absurd ⟨h.tables,hj,hju⟩ hno
  rw [ho,if_neg (by simp)]
  have hju' : (s.tcpPcb.tab.oos (s.tcpPcb.tab.tcb p).ooseq).inUse := hju
  by_cases ha : aheadOf (s.tcpPcb.tab.oos (s.tcpPcb.tab.tcb p).ooseq).seq (s.tcpPcb.tab.tcb p).vars.rcvNxt
  · rw [if_pos (by exact ha)]
    simp [heldReached,ha]
  rw [if_neg (by exact ha)]
  have hr : heldReached cfg s p := by
    simp [heldReached,h.ready,h.bound,h.tables,h.lt,h.used,hj,hju',hne,Bool.eq_false_iff.2 ha]
  rw [hr]
  rfl

theorem deliverHeld_tables (cfg : Config) (s : Side) (p : ℕ) (o : TcpPcb.Oos) (nxt : BitVec 32) :
    TcpPcb.SameQueues s.tcpPcb.tab (deliverHeld cfg s p o nxt).tcpPcb.tab ∧
      (deliverHeld cfg s p o nxt).tcpPcb.ready=s.tcpPcb.ready := by
  unfold deliverHeld
  dsimp only
  split_ifs
  · have hs : ∀ v,TcpPcb.SameQueues s.tcpPcb.tab
          (store cfg (s.tcpPcb.image v s.tcpPcb.io.ctl s.tcpPcb.io.state) p).tab ∧
        (store cfg (s.tcpPcb.image v s.tcpPcb.io.ctl s.tcpPcb.io.state) p).ready=s.tcpPcb.ready := by
      intro v
      refine ⟨store_sameQueues (s.tcpPcb.image v s.tcpPcb.io.ctl s.tcpPcb.io.state) p,?_⟩
      unfold store
      dsimp only
      split_ifs <;> rfl
    exact hs _
  · exact ⟨.of_eq rfl,rfl⟩

theorem Holding.delivered {s : Side} (h : Holding cfg p s l) (hr : heldReached cfg s p) :
    ∃ i l',l=i::l' ∧ Holding cfg p (tcpDeliver cfg s p) l' := by
  rcases h.head with ⟨-,hn⟩|⟨l',hl,hj,hju,ho⟩
  · simp [heldReached,hn] at hr
  refine ⟨_,l',hl,?_⟩
  have hrt := tcpDeliver_route cfg s p
  generalize tcpDeliver cfg s p=u at hrt ⊢
  cases hrt with
  | refused io hac hg hc hb =>
    rw [hr] at hg
    cases hg
  | idle w io ht hrw hac hg hc hb =>
    rw [hr] at hg
    cases hg
  | held w ht hrw hi hu hv hj' hju' ha hg =>
    obtain ⟨oo,hoo,hol⟩ := h.queue
    obtain ⟨hq,hrd⟩ := deliverHeld_tables cfg (deliverSide cfg s w (deliverIo s p)) p
      (s.tcpPcb.tab.oos (s.tcpPcb.tab.tcb p).ooseq) (s.tcpPcb.tab.tcb p).vars.rcvNxt
    have hs : (deliverSide cfg s w (deliverIo s p)).tcpPcb.tab=s.tcpPcb.tab := ht
    rw [hs] at hq
    generalize hd : deliverHeld cfg (deliverSide cfg s w (deliverIo s p)) p
      (s.tcpPcb.tab.oos (s.tcpPcb.tab.tcb p).ooseq) (s.tcpPcb.tab.tcb p).vars.rcvNxt=d at hq hrd ⊢
    have hdk : TcpPcb.OosOk cfg d.tcpPcb.tab oo := hoo.frame hq.oos hq.inUse hq.ooseq
    have hdj : (d.tcpPcb.tab.oos (s.tcpPcb.tab.tcb p).ooseq).inUse ∧
        (d.tcpPcb.tab.oos (s.tcpPcb.tab.tcb p).ooseq).pcb=p := by
      rw [hq.oos]
      exact ⟨hju,ho⟩
    obtain ⟨hf,hfr⟩ := hdk.oosFree (hrd.trans hrw) hj hdj.1 hdj.2
    have hus : ((oosFree cfg d.tcpPcb (s.tcpPcb.tab.tcb p).ooseq).tab.tcb p).inUse := by
      rcases oosFree_cases with ht|⟨-,-,-,v,hun,he⟩
      · rw [ht,hq.inUse]
        exact hu
      · rw [he]
        exact ((oosUnlink_frame hun).inUse p).trans ((hq.inUse p).trans hu)
    have hd' : d.ready=s.ready ∧ d.tcpPcbBound=s.tcpPcbBound := by
      rw [←hd]
      unfold deliverHeld
      dsimp only
      split_ifs <;> exact ⟨rfl,rfl⟩
    refine ⟨hd'.1.trans h.ready,hd'.2.trans h.bound,hfr,h.lt,hus,_,hf,?_⟩
    rw [Function.update_self,hol,hl,List.erase_cons_head]

variable {x : Listening}

/-- The loop ends: one call more than there are held segments and the last one reports BUSY. -/
theorem drain_busy (n : ℕ) (h : Holding cfg p x.stack.side l) (hn : l.length<n) :
    (drain cfg p n x).stack.side.io.status=.busy := by
  induction n generalizing x l with
  | zero => cases hn
  | succ n ih =>
    have hst := tcpDeliver_status h
    unfold drain
    cases hr : heldReached cfg x.stack.side p with
    | false =>
      rw [hr] at hst
      have hb : (x.call cfg p (.deliver p)).stack.side.io.status=.busy := hst
      rw [if_neg (by rw [hb]; decide)]
      exact hb
    | true =>
      rw [hr] at hst
      obtain ⟨i,l',rfl,hnx⟩ := h.delivered hr
      have hok : (x.call cfg p (.deliver p)).stack.side.io.status=.ok := hst
      rw [if_pos hok]
      exact ih hnx (lt_of_succ_lt_succ hn)

end Drain

/-- A segment of ESTABLISHED without a FIN that passes every check up to its text leaves ESTABLISHED as it is. -/
theorem segment_established {cfg : Config} (hr : TcpIn.reachesText cfg w)
    (hs : w.io.state=.established) (hf : hasBit w.io.seg.flags tcpFin=false) :
    (TcpIn.segment cfg w).io.state=.established := by
  rcases segment_reaches cfg w with ⟨-,he⟩|⟨hno,-⟩
  · have ha := hr
    simp only [reachesText,Bool.and_eq_true] at ha
    obtain ⟨hsg,hc,-⟩ := atText_reads cfg w ha.2
    have ho : (atText cfg w).res.act.hold=false := congrArg TcpIn.TextCore.hold hc
    have hfn : takesFin (atText cfg w)=false := by
      unfold takesFin
      rw [hsg,hf]
      rfl
    have hac := checkAck_mem cfg (judged cfg w)
    rw [(judged_parts cfg w).2.2.1,hs] at hac
    rw [he]
    rw [checkTextFin_state _ ho,hfn]
    exact (checkUrg_state _).trans (List.mem_singleton.1 hac)
  · rw [hr] at hno
    cases hno

/-- Text of ESTABLISHED that begins at RCV.NXT and fits the window is taken whole. -/
theorem segTaken_whole {cfg : Config} (hr : TcpIn.reachesText cfg w) (hs : w.io.state=.established)
    (hsq : w.io.seg.seq=w.io.vars.rcvNxt) (hl : w.io.seg.dataLen≠0) (hw : w.io.seg.dataLen.setWidth 32≤w.io.vars.rcvWnd) :
    TcpIn.segTaken cfg w=w.io.seg.dataLen.setWidth 32 := by
  have ha := hr
  simp only [reachesText,Bool.and_eq_true,Bool.not_eq_true'] at ha
  have hst : (viewed w).state=.established := by simp [viewed,hs]
  have hg : textGap (viewed w)=0 := by
    show tcpInFrom w.io.vars.rcvNxt (textSeq (viewed w))=0
    rw [textSeq_plain (by exact ha.1.1.2)]
    show w.io.vars.rcvNxt-w.io.seg.seq=0
    rw [hsq,sub_self]
  have hp : textGap (viewed w)<w.io.seg.dataLen.setWidth 32 := by
    have hne : w.io.seg.dataLen.toNat≠0 := fun h0 => hl (eq_of_toNat_eq h0)
    rw [hg]
    apply lt_def.2
    rw [toNat_setWidth_of_le (by decide)]
    exact pos_of_ne_zero hne
  have ht : TcpIn.takes (viewed w) := by
    unfold TcpIn.takes
    rw [hst]
    exact decide_eq_true hp
  have hf : fitting (viewed w)=w.io.seg.dataLen.setWidth 32 := by
    unfold fitting
    rw [hg,sub_zero]
    exact if_neg (BitVec.not_lt.2 hw)
  unfold segTaken taken
  rw [if_pos hr,if_pos ht,hf]

section Span

variable (cfg : Config) (p : ℕ)

/-- The first number of the data a frame carries to TCP, and how much there is. -/
def spanOf (s : Stack) (f : Frame) : BitVec 32×BitVec 16 := ((arrival cfg f.env s f.args).map Arrival.extent).getD (0,0)

/-- A frame that continues the text: an acceptable segment without FIN, whose data begins at RCV.NXT and fits the
window. -/
def Continues (x : Listening) (f : Frame) : Prop :=
  ∃ w,enteredBy cfg f.env x.stack f.args p=some w ∧ TcpIn.reachesText cfg w ∧
    hasBit w.io.seg.flags tcpFin=false ∧ w.io.seg.dataLen≠0 ∧ w.io.seg.seq=w.io.vars.rcvNxt ∧
    w.io.seg.dataLen.setWidth 32≤w.io.vars.rcvWnd

instance (x : Listening) (f : Frame) : Decidable (Continues cfg p x f) :=
  match h : enteredBy cfg f.env x.stack f.args p with
  | none => isFalse fun hc => by
    obtain ⟨w,hw,-⟩ := hc
    rw [h] at hw
    cases hw
  | some w => decidable_of_iff (TcpIn.reachesText cfg w=true ∧ hasBit w.io.seg.flags tcpFin=false ∧ w.io.seg.dataLen≠0 ∧
      w.io.seg.seq=w.io.vars.rcvNxt ∧ w.io.seg.dataLen.setWidth 32≤w.io.vars.rcvWnd)
      ⟨fun hc => ⟨w,h,hc⟩,fun hc => by
        obtain ⟨v,hv,hc⟩ := hc
        rw [h] at hv
        cases hv
        exact hc⟩

variable {cfg p}

variable {x : Listening} {f : Frame}

theorem enteredBy_span {s : Stack} (h : SameWire s x.stack) (hw : enteredBy cfg f.env x.stack f.args p=some w) :
    w.io.seg.seq=(spanOf cfg s f).1 ∧ w.io.seg.dataLen=(spanOf cfg s f).2 := by
  obtain ⟨r,hr,hs,hl⟩ := enteredBy_extent hw
  rw [arrival_sameWire h] at hr
  unfold spanOf
  rw [hr]
  exact ⟨hs,hl⟩

/-- No more is taken than there is, and all of it only when it begins at RCV.NXT. -/
theorem takenAt_span {s : Stack} (x : Listening) (f : Frame) (h : SameWire s x.stack) :
    takenAt cfg p x f≤(spanOf cfg s f).2.toNat ∧ (takenAt cfg p x f=(spanOf cfg s f).2.toNat → (spanOf cfg s f).2≠0 →
        (spanOf cfg s f).1=(x.stack.tab.tcb p).vars.rcvNxt) := by
  have hn : takenAt cfg p x f=0 → takenAt cfg p x f≤(spanOf cfg s f).2.toNat ∧
      (takenAt cfg p x f=(spanOf cfg s f).2.toNat → (spanOf cfg s f).2≠0 →
        (spanOf cfg s f).1=(x.stack.tab.tcb p).vars.rcvNxt) := by
    intro hz
    rw [hz]
    exact ⟨zero_le _,fun h0 hne => absurd (eq_of_toNat_eq h0.symm) hne⟩
  cases hw : enteredBy cfg f.env x.stack f.args p with
  | none => exact hn (by simp [takenAt,directText,hw])
  | some w =>
    have htk : takenAt cfg p x f=(segTaken cfg w).toNat := by simp [takenAt,directText,hw]
    cases ht : segTakes cfg w with
    | false =>
      refine hn (htk.trans ?_)
      rw [segTaken_eq,ht]
      rfl
    | true =>
      obtain ⟨hs,hl⟩ := enteredBy_span h hw
      obtain ⟨-,hd⟩ := segTakes_bounds cfg w ht
      rw [(enteredBy_row hw).1,hs,hl] at hd
      rw [htk]
      refine ⟨by omega,fun hall _ => ?_⟩
      have hg : ((x.stack.tab.tcb p).vars.rcvNxt-(spanOf cfg s f).1).toNat=0 := by omega
      exact (sub_eq_zero.1 (eq_of_toNat_eq hg)).symm

/-- A frame that continues the text of an ESTABLISHED connection is taken whole, and leaves it ESTABLISHED. -/
theorem Continues.taken {s : Stack} (h : Continues cfg p x f) (hx : Hears p s x) (hs : (x.stack.tab.tcb p).state=.established) :
    takenAt cfg p x f=(spanOf cfg s f).2.toNat ∧ (spanOf cfg s f).2≠0 ∧
      ((arrive cfg p x f).stack.tab.tcb p).state=.established := by
  obtain ⟨w,hw,hr,hf,hne,hsq,hwn⟩ := h
  have hst : w.io.state=.established := (enteredBy_row hw).2.2.1.trans hs
  obtain ⟨-,hl⟩ := enteredBy_span hx.wire hw
  refine ⟨?_,by rw [←hl]; exact hne,?_⟩
  · have ht : takenAt cfg p x f=(segTaken cfg w).toNat := by simp [takenAt,directText,hw]
    rw [ht,segTaken_whole hr hst hsq hne hwn,←hl]
    exact toNat_setWidth_of_le (by decide)
  · have hin : ((x.call cfg p (.input f.env f.args)).stack.tab.tcb p).state=.established := by
      rcases input_row cfg f.env x.stack f.args p hx.opened.1 with ⟨w',hw',ho⟩|⟨hno,-⟩
      · rw [hw] at hw'
        cases hw'
        have hrn : runIn cfg w=segment cfg w := by
          unfold runIn
          rw [if_neg (by rw [hst]; decide),if_neg (by rw [hst]; decide)]
        obtain ⟨o,hrw⟩ := ho.row
        rw [if_neg (by simp [opensClosing,hst]),hrn] at hrw
        show ((input cfg f.env x.stack f.args).side.tcpPcb.tab.tcb p).state=_
        rw [hrw]
        exact segment_established hr hst hf
      · rw [hw] at hno
        cases hno
    have hk : ∀ y : Listening,(y.stack.tab.tcb p).state=.established →
        ((y.call cfg p (.deliver p)).stack.tab.tcb p).state=.established := by
      intro y hy
      obtain ⟨o,hrw⟩ := (tcpDeliver_redelivered cfg y.stack.side p).row p
      show ((tcpDeliver cfg y.stack.side p).tcpPcb.tab.tcb p).state=_
      rw [hrw]
      exact hy
    exact drain_keeps hk (cfg.tcpOoseqEntries+1) hin

/-- The data of two frames does not overlap. -/
def Apart (cfg : Config) (s : Stack) (f g : Frame) : Prop :=
  (spanOf cfg s f).2.toNat≤((spanOf cfg s g).1-(spanOf cfg s f).1).toNat ∧
    (spanOf cfg s g).2.toNat≤((spanOf cfg s f).1-(spanOf cfg s g).1).toNat

instance (s : Stack) : DecidableRel (Apart cfg s) := fun f g =>
  inferInstanceAs (Decidable ((spanOf cfg s f).2.toNat≤((spanOf cfg s g).1-(spanOf cfg s f).1).toNat ∧
    (spanOf cfg s g).2.toNat≤((spanOf cfg s f).1-(spanOf cfg s g).1).toNat))

theorem Apart.start_ne {s : Stack} {g : Frame} (h : Apart cfg s f g) (hf : (spanOf cfg s f).2≠0) :
    (spanOf cfg s f).1≠(spanOf cfg s g).1 := by
  intro he
  have hl := h.1
  have hp : (spanOf cfg s f).2.toNat≠0 := fun h0 => hf (eq_of_toNat_eq h0)
  rw [he,sub_self] at hl
  exact hp (le_zero.1 hl)

/-- Two runs end alike: the same octets were delivered in the same order, and the receive variables agree. -/
structure SameEnd (p : ℕ) (x y : Listening) : Prop where
  stream : x.stream=y.stream
  rcvNxt : (x.stack.tab.tcb p).vars.rcvNxt=(y.stack.tab.tcb p).vars.rcvNxt
  rcvWnd : (x.stack.tab.tcb p).vars.rcvWnd=(y.stack.tab.tcb p).vars.rcvWnd

variable {fs : List Frame}

theorem cover_taken {s : Stack} (hx : Hears p s x)
    (hs : (x.stack.tab.tcb p).state=.established) (hc : Along (arrive cfg p) (Continues cfg p) x fs) :
    Along (arrive cfg p) (fun y f => Hears p s y ∧ takenAt cfg p y f=(spanOf cfg s f).2.toNat) x fs ∧
      ∀ f∈fs,(spanOf cfg s f).2≠0 := by
  induction fs generalizing x with
  | nil => exact ⟨trivial,nofun⟩
  | cons f fs ih =>
    obtain ⟨ht,hne,hst⟩ := hc.1.taken hx hs
    obtain ⟨hr,ha⟩ := ih (arrive_hears x f hx) hst hc.2
    refine ⟨⟨⟨hx,ht⟩,hr⟩,fun g hg => ?_⟩
    rcases List.mem_cons.1 hg with rfl|hg
    · exact hne
    · exact ha g hg

/-- What is taken over a run is all the data exactly when every frame is taken whole. -/
theorem takenAt_total {s : Stack} (hx : Hears p s x) {fs : List Frame} :
    total (arrive cfg p) (takenAt cfg p) x fs=(fs.map fun f => (spanOf cfg s f).2.toNat).sum ↔
      Along (arrive cfg p) (fun y f => Hears p s y ∧ takenAt cfg p y f=(spanOf cfg s f).2.toNat) x fs := by
  have hk : ∀ y f,Hears p s y → Hears p s (arrive cfg p y f) := arrive_hears
  have hle : ∀ y f,Hears p s y → takenAt cfg p y f≤(spanOf cfg s f).2.toNat := fun y f hy => (takenAt_span y f hy.wire).1
  rw [(total_sizes hk hle hx fs).2]
  exact along_congr hk (fun y f hy => (and_iff_right hy).symm) hx

/-- Of frames that are apart, one at most is taken whole in any one state. -/
theorem taken_unique {s : Stack} (hne : ∀ f∈fs,(spanOf cfg s f).2≠0)
    (ha : fs.Pairwise (Apart cfg s)) (y : Listening) (f : Frame) (hf : f∈fs) (g : Frame) (hg : g∈fs)
    (htf : Hears p s y ∧ takenAt cfg p y f=(spanOf cfg s f).2.toNat)
    (htg : Hears p s y ∧ takenAt cfg p y g=(spanOf cfg s g).2.toNat) : f=g := by
  have hs : (spanOf cfg s f).1=(spanOf cfg s g).1 :=
    ((takenAt_span y f htf.1.wire).2 htf.2 (hne f hf)).trans ((takenAt_span y g htg.1.wire).2 htg.2 (hne g hg)).symm
  have hsymm : Std.Symm (Apart cfg s) := ⟨fun f g h => ⟨h.2,h.1⟩⟩
  by_contra hfg
  exact (ha.forall hf hg hfg).start_ne (hne f hf) hs

/-- Segments that cover a range from RCV.NXT on, in another order with `tcp_deliver` until BUSY behind each, end as in
sequence order exactly when they are in it: a held segment draws nothing from RCV.WND. -/
theorem run_sameEnd_iff (cfg : Config) (p : ℕ) (s : Stack) (fs gs : List Frame) (hu : (s.tab.tcb p).inUse=true)
    (hs : (s.tab.tcb p).state=.established) (hcover : Along (arrive cfg p) (Continues cfg p) ⟨s,[]⟩ fs)
    (hapart : fs.Pairwise (Apart cfg s)) (hperm : gs.Perm fs) :
    SameEnd p (run (arrive cfg p) ⟨s,[]⟩ gs) (run (arrive cfg p) ⟨s,[]⟩ fs) ↔ gs=fs := by
  have hx : Hears p s ⟨s,[]⟩ := ⟨⟨hu,by rw [hs]; decide⟩,.refl s⟩
  constructor
  · intro hend
    obtain ⟨hwhole,hne⟩ := cover_taken hx hs hcover
    have hfs := (takenAt_total hx).2 hwhole
    have hsum : (gs.map fun f => (spanOf cfg s f).2.toNat).sum=(fs.map fun f => (spanOf cfg s f).2.toNat).sum :=
      (hperm.map _).sum_eq
    have hsame : wndOf p (run (arrive cfg p) ⟨s,[]⟩ gs)=wndOf p (run (arrive cfg p) ⟨s,[]⟩ fs) :=
      congrArg BitVec.toNat hend.rcvWnd
    have hwndf : wndOf p (run (arrive cfg p) ⟨s,[]⟩ fs)+_=_ := run_balance arrive_hears arrive_wnd hx
    have hwndg : wndOf p (run (arrive cfg p) ⟨s,[]⟩ gs)+_=_ := run_balance arrive_hears arrive_wnd hx
    have hgs : Along (arrive cfg p) _ ⟨s,[]⟩ gs := (takenAt_total hx).1 (by omega)
    exact Along.unique (taken_unique hne hapart) hperm hwhole hgs
  · rintro rfl
    exact ⟨rfl,rfl,rfl⟩

end Span

/-- Three octets of the peer from a number on, in the frame of a descriptor. -/
def spoken (seq : BitVec 32) (d : ℕ) : Frame :=
  ⟨.host 0x0A000001,Sent.args ⟨0x0A000002,0x0A000001,80,1000,seq,101,tcpAck,[1,2,3]⟩ d 0⟩

/-- Two segments that cover six octets from RCV.NXT on, the other way round. -/
theorem run_sameEnd_spoken :
    let s := Stack.talking .established
    let fs := [spoken 500 1,spoken 503 0]
    Along (arrive .shipped 0) (Continues .shipped 0) ⟨s,[]⟩ fs ∧ fs.Pairwise (Apart .shipped s) ∧
      (SameEnd 0 (run (arrive .shipped 0) ⟨s,[]⟩ fs.reverse) (run (arrive .shipped 0) ⟨s,[]⟩ fs) ↔ fs.reverse=fs) := by
  have hcover : Along (arrive .shipped 0) (Continues .shipped 0) ⟨Stack.talking .established,[]⟩ [spoken 500 1,spoken 503 0] :=
    ⟨by decide +kernel,by decide +kernel,trivial⟩
  have hapart : [spoken 500 1,spoken 503 0].Pairwise (Apart .shipped (Stack.talking .established)) := by decide +kernel
  exact ⟨hcover,hapart,run_sameEnd_iff .shipped 0 (Stack.talking .established) _ _ (by decide +kernel) (by decide +kernel)
    hcover hapart (List.reverse_perm _)⟩

/-- The other way round the octets delivered and RCV.NXT are the same, and the window is three octets larger. -/
theorem run_reversed_window :
    let s := Stack.talking .established
    let fs := [spoken 500 1,spoken 503 0]
    let inOrder := run (arrive .shipped 0) ⟨s,[]⟩ fs
    let reversed := run (arrive .shipped 0) ⟨s,[]⟩ fs.reverse
    Along (arrive .shipped 0) (Continues .shipped 0) ⟨s,[]⟩ fs ∧ fs.Pairwise (Apart .shipped s) ∧
      reversed.stream=inOrder.stream ∧ inOrder.stream=[500,501,502,503,504,505] ∧
      (reversed.stack.tab.tcb 0).vars.rcvNxt=(inOrder.stack.tab.tcb 0).vars.rcvNxt ∧
      (reversed.stack.tab.tcb 0).vars.rcvWnd=(inOrder.stack.tab.tcb 0).vars.rcvWnd+3 ∧
      ¬SameEnd 0 reversed inOrder := by
  refine ⟨⟨by decide +kernel,by decide +kernel,trivial⟩,by decide +kernel,by decide +kernel,by decide +kernel,by decide +kernel,
    by decide +kernel,fun h => ?_⟩
  exact absurd h.rcvWnd (by decide +kernel)

end IdemIp.Dispatch
