import IdemIp.Config
import IdemIp.IndexChain
import IdemIp.StepRun

/-!
# The deadline list, `timeouts.c`

A slot holds the deadline of a unit and an index into that unit's table. Armed
slots are threaded in the order of their deadlines, compared as differences of a
count that wraps, and `expire` takes the first one off once it is due.
-/

namespace IdemIp.Timeouts

section Lists

open IndexChain

/-- One slot, `TimeoutEntry`. -/
structure Entry where
  deadlineMs : BitVec 32
  (unit arg : BitVec 8)
  /-- Bit zero is set while the slot holds a deadline. -/
  flags : BitVec 8
  next : ℕ
deriving DecidableEq

def Entry.zero : Entry := ⟨0,0,0,0,0⟩

/-- The slot holds a deadline. -/
def Entry.armed (e : Entry) : Bool := e.flags &&& 1 != 0

/-- Result members of the operand block, `TimeoutsIo`. -/
structure Io where
  status : Status
  (unit arg : BitVec 8)
  armed : ℕ
  (deadlineMs untilMs : BitVec 32)

/-- The caller's borrow, `TimeoutsCtx` and the slots behind it. -/
structure Work where
  /-- `clear` ran. -/
  ready : Bool
  nowMs : BitVec 32
  (head armed : ℕ)
  slot : ℕ → Entry
  io : Io

/-- Operands of `arm`, `TimeoutArmArgs`. -/
structure ArmArgs where
  deadlineMs : BitVec 32
  (unit arg flags : BitVec 8)

/-- One count precedes another, `timeouts_before`. -/
def before (a b : BitVec 32) : Bool := 0x7FFFFFFF<a-b

def Work.next (w : Work) (i : ℕ) : ℕ := (w.slot i).next

def Work.setSlot (w : Work) (i : ℕ) (e : Entry) : Work := {w with slot := Function.update w.slot i e}

/-- Replace the link of a slot. -/
def Work.setNext (w : Work) (i n : ℕ) : Work := w.setSlot i {w.slot i with next := n}

/-- A unit a deadline may belong to. -/
def unitOk (unit : BitVec 8) : Bool := unit != 0 && unit<14

variable (cfg : Config) (w : Work)

/-- The armed slot of a unit and an index, `timeouts_find`. -/
def find (unit arg : BitVec 8) : Option ℕ :=
  firstIndex cfg.timeouts fun i => (w.slot i).armed && (w.slot i).unit==unit && (w.slot i).arg==arg

/-- The first slot that is free, `timeouts_free`. -/
def free : Option ℕ := firstIndex cfg.timeouts fun i => !(w.slot i).armed

/-- Thread a slot in ahead of the first whose deadline it precedes, `timeouts_link`. -/
def link (i : ℕ) : Work :=
  let place := seek w.next cfg.timeouts (fun j => before (w.slot i).deadlineMs (w.slot j).deadlineMs) cfg.timeouts none8 w.head
  let w := w.setNext i place.2
  if place.1=none8 then {w with head := i} else w.setNext place.1 i

/-- Take a slot out of the list, `timeouts_unlink`. -/
def unlink (i : ℕ) : Work :=
  if w.head=i then {w with head := w.next i}
  else
    match pred? w.next cfg.timeouts i cfg.timeouts w.head with
    | some p => w.setNext p (w.next i)
    | none => w

/-- Free a slot, `timeouts_drop`. -/
def drop (i : ℕ) : Work :=
  let w := (unlink cfg w i).setSlot i .zero
  {w with armed := w.armed-1}

/-- Report what the list holds, `timeouts_report`. -/
def Work.report (status : Status) : Work :=
  let untilMs :=
    if w.head=none8 then 0xFFFFFFFF
    else if before w.nowMs (w.slot w.head).deadlineMs then (w.slot w.head).deadlineMs-w.nowMs
    else 0
  {w with io := {w.io with armed := w.armed,untilMs,status}}

/-- Report an outcome and nothing else. -/
def Work.refuse : Work := {w with io := {w.io with status := .err}}

/-- Free every slot and mark the list, `idemip_timeouts_clear`. -/
def clear : Work := Work.report ⟨true,0,none8,0,fun _ => .zero,w.io⟩ .ok

/-- Hold a deadline, `idemip_timeouts_arm`. -/
def arm (a : ArmArgs) : Work :=
  let hold (w : Work) (i : ℕ) : Work :=
    (link cfg (w.setSlot i ⟨a.deadlineMs,a.unit,a.arg,a.flags ||| 1,(w.slot i).next⟩) i).report .ok
  if w.ready=false ∨ unitOk a.unit=false then w.refuse
  else
    match find cfg w a.unit a.arg with
    | some i => hold (unlink cfg w i) i
    | none =>
      match free cfg w with
      | none => w.report .busy
      | some i => hold {w with armed := w.armed+1} i

/-- Drop a deadline, `idemip_timeouts_cancel`. -/
def cancel (unit arg : BitVec 8) : Work :=
  if w.ready=false ∨ unitOk unit=false then w.refuse
  else
    match find cfg w unit arg with
    | none => w.report .busy
    | some i => (drop cfg w i).report .ok

/-- Record the count, `idemip_timeouts_tick`. -/
def tick (nowMs : BitVec 32) : Work :=
  if w.ready then {w with nowMs}.report .ok else w.refuse

/-- Take the first deadline off once it is reached, `idemip_timeouts_expire`. -/
def expire : Work :=
  let w := {w with io := {w.io with unit := 0,arg := 0,deadlineMs := 0}}
  let e := w.slot w.head
  if w.ready=false then w.refuse
  else if w.head=none8 ∨ before w.nowMs e.deadlineMs then w.report .busy
  else (drop cfg {w with io := {w.io with unit := e.unit,arg := e.arg,deadlineMs := e.deadlineMs}} w.head).report .ok

/-- A call with its operands. -/
inductive Call
  | arm (a : ArmArgs)
  | cancel (unit arg : BitVec 8)
  | tick (nowMs : BitVec 32)
  | expire

def step : Call → Work
  | .arm a => arm cfg w a
  | .cancel unit arg => cancel cfg w unit arg
  | .tick nowMs => tick w nowMs
  | .expire => expire cfg w

end Lists

section Unit

open List hiding Chain
open IndexChain StepRun Function

section Order

variable {α : Type*} {k : α → ℕ} {l : List α} {x : α} {p : α → Bool}

theorem pairwise_insert (h : l.Pairwise fun i j => k i≤k j) (hp : ∀ j∈l,p j ↔ k j≤k x) :
    (l.takeWhile p++x::l.dropWhile p).Pairwise fun i j => k i≤k j := by
  induction l with
  | nil => simp
  | cons y l ih =>
    obtain ⟨hy,hl⟩ := pairwise_cons.1 h
    have hpl : ∀ j∈l,p j ↔ k j≤k x := fun j hj => hp j (mem_cons_of_mem y hj)
    have hpy := hp y mem_cons_self
    cases hc : p y with
    | true =>
      have hle : k y≤k x := hpy.1 hc
      rw [takeWhile_cons_of_pos hc,dropWhile_cons_of_pos hc,cons_append]
      refine pairwise_cons.2 ⟨fun z hz => ?_,ih hl hpl⟩
      rcases mem_append.1 hz with hz|hz
      · exact hy z ((takeWhile_sublist p).subset hz)
      rcases mem_cons.1 hz with rfl|hz
      · exact hle
      · exact hy z ((dropWhile_sublist p).subset hz)
    | false =>
      have hlt : k x<k y := by
        rw [hc] at hpy
        exact Nat.not_le.1 fun hle => Bool.false_ne_true (hpy.2 hle)
      have hn : ¬p y := by simp [hc]
      rw [takeWhile_cons_of_neg hn,dropWhile_cons_of_neg hn,nil_append]
      refine pairwise_cons.2 ⟨fun z hz => ?_,h⟩
      rcases mem_cons.1 hz with rfl|hz
      · exact hlt.le
      · exact hlt.le.trans (hy z hz)

end Order

/-- A count lies in the window of half the circle that begins at another. -/
def Within (b x : BitVec 32) : Prop := (x-b).toNat<2^31

theorem before_iff {a b c : BitVec 32} (ha : Within b a) (hc : Within b c) : before a c ↔ (a-b).toNat<(c-b).toNat := by
  unfold Within at ha hc
  unfold before
  rw [decide_eq_true_iff,BitVec.lt_def]
  have hd : a-c=(a-b)-(c-b) := by bv_omega
  rw [hd]
  generalize a-b=x at *
  generalize c-b=y at *
  rw [BitVec.toNat_sub]
  show 2147483647<_ ↔ _
  omega

/-- What a slot holds, its link apart. -/
def Entry.data (e : Entry) : BitVec 32×BitVec 8×BitVec 8×BitVec 8 := (e.deadlineMs,e.unit,e.arg,e.flags)

/-- Only the links and the head differ. -/
structure Relinked (w u : Work) : Prop where
  ready : u.ready=w.ready
  nowMs : u.nowMs=w.nowMs
  armed : u.armed=w.armed
  io : u.io=w.io
  data : ∀ j,(u.slot j).data=(w.slot j).data

section Links

variable {cfg : Config} {w u v : Work} {i n : ℕ} {l : List ℕ}

theorem Relinked.trans (h : Relinked w u) (h' : Relinked u v) : Relinked w v :=
  ⟨h'.ready.trans h.ready,h'.nowMs.trans h.nowMs,h'.armed.trans h.armed,h'.io.trans h.io,fun j => (h'.data j).trans (h.data j)⟩

theorem Relinked.fields (h : Relinked w u) (j : ℕ) :
    (u.slot j).deadlineMs=(w.slot j).deadlineMs ∧ (u.slot j).unit=(w.slot j).unit ∧ (u.slot j).arg=(w.slot j).arg ∧
      (u.slot j).armed=(w.slot j).armed := by
  have hd := h.data j
  simp only [Entry.data,Prod.mk.injEq] at hd
  obtain ⟨h1,h2,h3,h4⟩ := hd
  exact ⟨h1,h2,h3,by rw [Entry.armed,Entry.armed,h4]⟩

theorem setSlot_self (w : Work) (i : ℕ) (e : Entry) : (w.setSlot i e).slot i=e := update_self _ _ _

theorem setSlot_other {j : ℕ} (w : Work) (e : Entry) (hj : j≠i) : (w.setSlot i e).slot j=w.slot j := update_of_ne hj _ _

@[simp] theorem setSlot_next {w : Work} {i : ℕ} {e : Entry} : (w.setSlot i e).next=update w.next i e.next := by
  funext j
  by_cases hj : j=i
  · subst hj
    simp [Work.next,Work.setSlot]
  · simp [Work.next,Work.setSlot,hj]

@[simp] theorem setNext_next (w : Work) (i n : ℕ) : (w.setNext i n).next=update w.next i n := setSlot_next

theorem setNext_relinked {w : Work} {i n : ℕ} : Relinked w (w.setNext i n) := by
  refine ⟨rfl,rfl,rfl,rfl,fun j => ?_⟩
  by_cases hj : j=i
  · subst hj
    simp [Work.setNext,Work.setSlot,Entry.data]
  · simp [Work.setNext,Work.setSlot,hj]

theorem setHead_relinked {w : Work} {n : ℕ} : Relinked w {w with head := n} := ⟨rfl,rfl,rfl,rfl,fun _ => rfl⟩

theorem unlink_chain (h : Chain w.next cfg.timeouts none8 w.head l) (hi : i∈l) :
    Chain (unlink cfg w i).next cfg.timeouts none8 (unlink cfg w i).head (l.erase i) ∧ Relinked w (unlink cfg w i) := by
  unfold unlink
  rcases h.unlink cfg.timeouts_le hi with ⟨hh,hc⟩|⟨hh,p,-,-,hp,hc⟩
  · rw [if_pos hh]
    exact ⟨hc,setHead_relinked⟩
  rw [if_neg hh,hp]
  refine ⟨?_,setNext_relinked⟩
  rw [setNext_next]
  exact hc

/-- The list with a slot ahead of the first whose deadline it precedes. -/
def placed (w : Work) (i : ℕ) (l : List ℕ) : List ℕ :=
  let behind := fun j => !before (w.slot i).deadlineMs (w.slot j).deadlineMs
  l.takeWhile behind++i::l.dropWhile behind

theorem mem_placed {j : ℕ} : j∈placed w i l ↔ j=i ∨ j∈l := by
  have hl := congrArg (j∈·) (takeWhile_append_dropWhile (p := fun j => !before (w.slot i).deadlineMs (w.slot j).deadlineMs) (l := l))
  simp only [mem_append,eq_iff_iff] at hl
  simp only [placed,mem_append,mem_cons]
  tauto

theorem length_placed : (placed w i l).length=l.length+1 := by
  have hl := congrArg length
    (takeWhile_append_dropWhile (p := fun j => !before (w.slot i).deadlineMs (w.slot j).deadlineMs) (l := l))
  simp only [length_append] at hl
  simp only [placed,length_append,length_cons]
  omega

theorem link_chain (h : Chain w.next cfg.timeouts none8 w.head l) (hi : i < cfg.timeouts) (hil : i∉l) :
    Chain (link cfg w i).next cfg.timeouts none8 (link cfg w i).head (placed w i l) ∧ Relinked w (link cfg w i) := by
  have hle := cfg.timeouts_le
  have hp := seek_prev hle h (fun j => before (w.slot i).deadlineMs (w.slot j).deadlineMs) none8 (h.length_le hle)
  have ht := h.thread hle (fun j => before (w.slot i).deadlineMs (w.slot j).deadlineMs) hi hil hle
  unfold link
  generalize seek w.next cfg.timeouts (fun j => before (w.slot i).deadlineMs (w.slot j).deadlineMs) cfg.timeouts none8 w.head=place at *
  rcases ht with ⟨hge,hc⟩|⟨hlt,-,hc⟩
  · have hn : place.1=none8 := hp.resolve_right fun hm => by
      have := Path.lt h hm
      omega
    rw [if_pos hn]
    refine ⟨?_,(setNext_relinked).trans (setHead_relinked)⟩
    show Chain (w.setNext i place.2).next _ _ i _
    rw [setNext_next]
    exact hc
  · rw [if_neg (by omega)]
    refine ⟨?_,(setNext_relinked).trans (setNext_relinked)⟩
    rw [setNext_next,setNext_next]
    exact hc

end Links

/-- The list of a unit that was cleared: the armed slots, each once, with different keys. -/
structure Threaded (cfg : Config) (w : Work) (l : List ℕ) : Prop where
  ready : w.ready
  chain : Chain w.next cfg.timeouts none8 w.head l
  mem : ∀ i,i∈l ↔ i < cfg.timeouts ∧ (w.slot i).armed
  keys : ∀ i∈l,∀ j∈l,(w.slot i).unit=(w.slot j).unit → (w.slot i).arg=(w.slot j).arg → i=j
  count : w.armed=l.length

/-- The deadlines on the list ascend, as far as two counts can be compared. -/
def Ascends (w : Work) (l : List ℕ) : Prop := l.Pairwise fun i j => before (w.slot j).deadlineMs (w.slot i).deadlineMs=false

/-- All armed deadlines lie in one window. -/
def Fit (cfg : Config) (w : Work) (b : BitVec 32) : Prop :=
  ∀ i < cfg.timeouts,(w.slot i).armed → Within b (w.slot i).deadlineMs

section Steps

variable {cfg : Config} {w u : Work} {i : ℕ} {l : List ℕ} {a : ArmArgs} {b : BitVec 32}

variable (h : Threaded cfg w l)
include h

theorem Threaded.report (status : Status) : Threaded cfg (w.report status) l :=
  ⟨h.ready,h.chain,h.mem,h.keys,h.count⟩

theorem Threaded.ascends_iff (hb : Fit cfg w b) :
    Ascends w l ↔ l.Pairwise fun i j => ((w.slot i).deadlineMs-b).toNat≤((w.slot j).deadlineMs-b).toNat := by
  refine List.Pairwise.iff_of_mem fun {i j} hi hj => ?_
  obtain ⟨hin,hia⟩ := (h.mem i).1 hi
  obtain ⟨hjn,hja⟩ := (h.mem j).1 hj
  rw [←Bool.not_eq_true,before_iff (hb j hjn hja) (hb i hin hia)]
  exact Nat.not_lt

theorem Threaded.drop (hi : i∈l) : Threaded cfg (drop cfg w i) (l.erase i) ∧
    ∀ j,j≠i → ((drop cfg w i).slot j).data=(w.slot j).data := by
  obtain ⟨hc,hr⟩ := unlink_chain h.chain hi
  have hnd := h.chain.nodup cfg.timeouts_le
  have ho : ∀ j,j≠i → ((Timeouts.drop cfg w i).slot j)=(unlink cfg w i).slot j := fun j hj => setSlot_other _ _ hj
  have hs : (Timeouts.drop cfg w i).slot i=.zero := setSlot_self _ _ _
  have hm : ∀ j,j∈l.erase i ↔ j≠i ∧ j∈l := fun j => hnd.mem_erase_iff
  refine ⟨⟨hr.ready.trans h.ready,?_,fun j => ?_,fun j hj k hk hu ha => ?_,?_⟩,fun j hj => by rw [ho j hj]; exact hr.data j⟩
  · show Chain ((unlink cfg w i).setSlot i .zero).next _ _ (unlink cfg w i).head _
    rw [setSlot_next]
    refine Path.congr hc fun j hj => ?_
    exact update_of_ne ((hm j).1 hj).1 _ _
  · rw [hm]
    by_cases hj : j=i
    · subst hj
      rw [hs]
      simp [Entry.zero,Entry.armed]
    · rw [ho j hj,(hr.fields j).2.2.2,h.mem j]
      simp [hj]
  · obtain ⟨hji,hjl⟩ := (hm j).1 hj
    obtain ⟨hki,hkl⟩ := (hm k).1 hk
    rw [ho j hji,ho k hki,(hr.fields j).2.1,(hr.fields k).2.1] at hu
    rw [ho j hji,ho k hki,(hr.fields j).2.2.1,(hr.fields k).2.2.1] at ha
    exact h.keys j hjl k hkl hu ha
  · show (unlink cfg w i).armed-1=_
    rw [hr.armed,h.count,length_erase_of_mem hi]

omit h in
theorem Ascends.drop (ha : Ascends w l) (h : Threaded cfg w l) (hi : i∈l) : Ascends (drop cfg w i) (l.erase i) := by
  have hnd := h.chain.nodup cfg.timeouts_le
  obtain ⟨-,hd⟩ := h.drop hi
  have hs : (l.erase i).Pairwise _ := List.Pairwise.sublist erase_sublist ha
  refine List.Pairwise.imp_of_mem (fun {j k} hj hk hjk => ?_) hs
  have hdj := congrArg Prod.fst (hd j (hnd.mem_erase_iff.1 hj).1)
  have hdk := congrArg Prod.fst (hd k (hnd.mem_erase_iff.1 hk).1)
  have hdj : ((Timeouts.drop cfg w i).slot j).deadlineMs=(w.slot j).deadlineMs := hdj
  have hdk : ((Timeouts.drop cfg w i).slot k).deadlineMs=(w.slot k).deadlineMs := hdk
  rw [hdj,hdk]
  exact hjk

/-- The list while a slot is out of it, with that slot counted already. -/
structure Apart (cfg : Config) (w : Work) (i : ℕ) (l : List ℕ) : Prop where
  ready : w.ready
  chain : Chain w.next cfg.timeouts none8 w.head l
  mem : ∀ j,j∈l ↔ j≠i ∧ j < cfg.timeouts ∧ (w.slot j).armed
  keys : ∀ j∈l,∀ k∈l,(w.slot j).unit=(w.slot k).unit → (w.slot j).arg=(w.slot k).arg → j=k
  count : w.armed=l.length+1

/-- The slot `arm` fills. -/
def ArmArgs.entry (a : ArmArgs) (next : ℕ) : Entry := ⟨a.deadlineMs,a.unit,a.arg,a.flags ||| 1,next⟩

omit h in
theorem ArmArgs.entry_armed (a : ArmArgs) (next : ℕ) : (a.entry next).armed := by
  have hbt : (a.flags ||| 1) &&& 1=1 := by
    ext j
    simp
    exact Or.inr
  show ((a.flags ||| 1) &&& 1 != 0)
  rw [hbt]
  rfl

/-- The slot is written and threaded in. -/
def held (cfg : Config) (a : ArmArgs) (w : Work) (i : ℕ) : Work := link cfg (w.setSlot i (a.entry (w.slot i).next)) i

omit h in
theorem Apart.held (h : Apart cfg w i l) (hi : i < cfg.timeouts)
    (hky : ∀ j∈l,¬((w.slot j).unit=a.unit ∧ (w.slot j).arg=a.arg)) :
    Threaded cfg (held cfg a w i) (placed (w.setSlot i (a.entry (w.slot i).next)) i l) ∧
      Relinked (w.setSlot i (a.entry (w.slot i).next)) (held cfg a w i) := by
  generalize he : a.entry (w.slot i).next=e
  have hs := setSlot_self w i e
  have ho : ∀ j,j≠i → (w.setSlot i e).slot j=w.slot j := fun j hj => setSlot_other w e hj
  have har : e.armed := he ▸ a.entry_armed _
  have hil : i∉l := fun hm => ((h.mem i).1 hm).1 rfl
  have hne : ∀ j∈l,j≠i := fun j hj hji => hil (hji ▸ hj)
  have hch : Chain (w.setSlot i e).next cfg.timeouts none8 w.head l := by
    rw [setSlot_next]
    exact Path.congr h.chain fun j hj => update_of_ne (hne j hj) _ _
  obtain ⟨hc,hr⟩ := link_chain hch hi hil
  have hh : Timeouts.held cfg a w i=link cfg (w.setSlot i e) i := by rw [Timeouts.held,he]
  rw [hh]
  have hsp : ∀ j∈l,¬(e.unit=(w.slot j).unit ∧ e.arg=(w.slot j).arg) := by
    intro j hj hk
    subst he
    exact hky j hj ⟨hk.1.symm,hk.2.symm⟩
  refine ⟨⟨hr.ready.trans h.ready,hc,fun j => ?_,fun j hj k hk hu ha => ?_,?_⟩,hr⟩
  · rw [mem_placed,(hr.fields j).2.2.2,h.mem j]
    by_cases hj : j=i
    · subst hj
      simp [hs,har,hi]
    · simp [hj,ho j hj]
  · rw [(hr.fields j).2.1,(hr.fields k).2.1] at hu
    rw [(hr.fields j).2.2.1,(hr.fields k).2.2.1] at ha
    have hj' := mem_placed.1 hj
    have hk' := mem_placed.1 hk
    clear hj hk
    rcases hj' with rfl|hj <;> rcases hk' with rfl | hk
    · rfl
    · rw [hs,ho k (hne k hk)] at hu ha
      exact absurd ⟨hu,ha⟩ (hsp k hk)
    · rw [hs,ho j (hne j hj)] at hu ha
      exact absurd ⟨hu.symm,ha.symm⟩ (hsp j hj)
    · rw [ho j (hne j hj),ho k (hne k hk)] at hu ha
      exact h.keys j hj k hk hu ha
  · rw [hr.armed,length_placed]
    exact h.count

theorem Threaded.find (unit arg : BitVec 8) :
    (find cfg w unit arg=none ∧ ∀ j∈l,¬((w.slot j).unit=unit ∧ (w.slot j).arg=arg)) ∨
      ∃ i∈l,find cfg w unit arg=some i ∧ (w.slot i).unit=unit ∧ (w.slot i).arg=arg := by
  unfold Timeouts.find
  cases hf : firstIndex cfg.timeouts fun i => (w.slot i).armed && (w.slot i).unit==unit && (w.slot i).arg==arg with
  | none =>
    refine .inl ⟨rfl,fun j hj hk => ?_⟩
    obtain ⟨hjn,hja⟩ := (h.mem j).1 hj
    have hno := firstIndex_none.1 hf j hjn
    simp [hja,hk.1,hk.2] at hno
  | some i =>
    obtain ⟨hp,hin,-⟩ := firstIndex_some.1 hf
    simp only [Bool.and_eq_true,beq_iff_eq] at hp
    exact .inr ⟨i,(h.mem i).2 ⟨hin,hp.1.1⟩,rfl,hp.1.2,hp.2⟩

theorem Threaded.unlink_apart (hi : i∈l) : Apart cfg (unlink cfg w i) i (l.erase i) := by
  obtain ⟨hc,hr⟩ := unlink_chain h.chain hi
  have hnd := h.chain.nodup cfg.timeouts_le
  refine ⟨hr.ready.trans h.ready,hc,fun j => ?_,fun j hj k hk hu ha => ?_,?_⟩
  · rw [hnd.mem_erase_iff,h.mem j,(hr.fields j).2.2.2]
  · rw [(hr.fields j).2.1,(hr.fields k).2.1] at hu
    rw [(hr.fields j).2.2.1,(hr.fields k).2.2.1] at ha
    exact h.keys j (mem_of_mem_erase hj) k (mem_of_mem_erase hk) hu ha
  · have hpos := length_pos_of_mem hi
    rw [hr.armed,h.count,length_erase_of_mem hi]
    omega

theorem Threaded.free_apart (hf : free cfg w=some i) : i < cfg.timeouts ∧ Apart cfg {w with armed := w.armed+1} i l := by
  obtain ⟨hp,hin,-⟩ := firstIndex_some.1 hf
  have hno : (w.slot i).armed=false := by simpa using hp
  refine ⟨hin,h.ready,h.chain,fun j => ?_,h.keys,congrArg (·+1) h.count⟩
  rw [h.mem j]
  constructor
  · intro hj
    refine ⟨fun hji => ?_,hj⟩
    rw [hji,hno] at hj
    exact Bool.false_ne_true hj.2
  · exact fun hj => hj.2

/-- What `arm` does: nothing to the list, or the slot of the key is placed among those of other keys. -/
inductive Arms (cfg : Config) (w : Work) (l : List ℕ) (a : ArmArgs) (u : Work) : Prop
  | kept (h : Threaded cfg u l) (hslot : u.slot=w.slot)
  | placed (i : ℕ) (m : List ℕ) (v : Work) (h : Threaded cfg u (placed v i m)) (hsub : m.Sublist l)
      (hkey : ∀ j∈m,¬((w.slot j).unit=a.unit ∧ (w.slot j).arg=a.arg))
      (hself : (v.slot i).deadlineMs=a.deadlineMs) (hother : ∀ j∈m,(v.slot j).deadlineMs=(w.slot j).deadlineMs)
      (hdata : ∀ j,(u.slot j).deadlineMs=(v.slot j).deadlineMs)

theorem Threaded.arm (a : ArmArgs) : Arms cfg w l a (arm cfg w a) := by
  unfold Timeouts.arm
  by_cases hbd : w.ready=false ∨ unitOk a.unit=false
  · rw [if_pos hbd]
    exact .kept ⟨h.ready,h.chain,h.mem,h.keys,h.count⟩ rfl
  rw [if_neg hbd]
  have hnd := h.chain.nodup cfg.timeouts_le
  rcases h.find a.unit a.arg with ⟨hf,hky⟩|⟨i,hi,hf,hu,har⟩
  · rw [hf]
    cases hfr : free cfg w with
    | none => exact .kept (h.report .busy) rfl
    | some i =>
      obtain ⟨hin,hap⟩ := h.free_apart hfr
      obtain ⟨ht,hr⟩ := hap.held hin hky
      have hne : ∀ j∈l,j≠i := fun j hj => ((hap.mem j).1 hj).1
      refine .placed i l _ (ht.report .ok) (List.Sublist.refl l) hky ?_ (fun j hj => ?_) fun j => (hr.fields j).1
      · rw [setSlot_self]
        rfl
      · rw [setSlot_other _ _ (hne j hj)]
  rw [hf]
  have hap := h.unlink_apart hi
  obtain ⟨-,hru⟩ := unlink_chain h.chain hi
  have hne : ∀ j∈l.erase i,j≠i ∧ j∈l := fun j hj => hnd.mem_erase_iff.1 hj
  have hky : ∀ j∈l.erase i,¬((w.slot j).unit=a.unit ∧ (w.slot j).arg=a.arg) := fun j hj hk =>
    (hne j hj).1 (h.keys j (hne j hj).2 i hi (hk.1.trans hu.symm) (hk.2.trans har.symm))
  have hkey' : ∀ j∈l.erase i,¬(((unlink cfg w i).slot j).unit=a.unit ∧ ((unlink cfg w i).slot j).arg=a.arg) := by
    intro j hj
    rw [(hru.fields j).2.1,(hru.fields j).2.2.1]
    exact hky j hj
  obtain ⟨ht,hr⟩ := hap.held ((h.mem i).1 hi).1 hkey'
  refine .placed i (l.erase i) _ (ht.report .ok) erase_sublist hky ?_ (fun j hj => ?_) fun j => (hr.fields j).1
  · rw [setSlot_self]
    rfl
  · rw [setSlot_other _ _ (hne j hj).1]
    exact (hru.fields j).1

omit h in
/-- A deadline in one window with those of the other keys keeps the list ascending. -/
theorem Ascends.arm (ha : Ascends w l) (h : Threaded cfg w l) (har : Arms cfg w l a u) (hs : Within b a.deadlineMs)
    (hf : ∀ i < cfg.timeouts,(w.slot i).armed → ¬((w.slot i).unit=a.unit ∧ (w.slot i).arg=a.arg) → Within b (w.slot i).deadlineMs) :
    ∃ m,Threaded cfg u m ∧ Ascends u m := by
  cases har with
  | kept ht hsl => exact ⟨l,ht,by rw [Ascends,hsl]; exact ha⟩
  | placed i m v ht hsb hky hi ho hd =>
    have hwn : ∀ j∈m,Within b (v.slot j).deadlineMs := by
      intro j hj
      obtain ⟨hjn,hja⟩ := (h.mem j).1 (hsb.subset hj)
      rw [ho j hj]
      exact hf j hjn hja (hky j hj)
    have hw : Within b (v.slot i).deadlineMs := hi ▸ hs
    have has : m.Pairwise fun j k => ((v.slot j).deadlineMs-b).toNat≤((v.slot k).deadlineMs-b).toNat := by
      refine List.Pairwise.imp_of_mem (fun {j k} hj hk hjk => ?_) (List.Pairwise.sublist hsb ha)
      rw [←ho j hj,←ho k hk,←Bool.not_eq_true,before_iff (hwn k hk) (hwn j hj)] at hjk
      exact Nat.not_lt.1 hjk
    have hp := pairwise_insert (x := i) (p := fun j => !before (v.slot i).deadlineMs (v.slot j).deadlineMs) has fun j hj => by
      rw [Bool.not_eq_true',←Bool.not_eq_true,before_iff hw (hwn j hj)]
      exact Nat.not_lt
    refine ⟨_,ht,List.Pairwise.imp_of_mem (fun {j k} hj hk hjk => ?_) hp⟩
    have hal : ∀ j∈Timeouts.placed v i m,Within b (v.slot j).deadlineMs := fun j hj => by
      rcases mem_placed.1 hj with rfl|hj
      · exact hw
      · exact hwn j hj
    rw [hd j,hd k,←Bool.not_eq_true,before_iff (hal k hk) (hal j hj)]
    exact Nat.not_lt.2 hjk

/-- `cancel` leaves the list, or the list without a slot. -/
theorem Threaded.cancel (unit arg : BitVec 8) :
    ∃ m,Threaded cfg (cancel cfg w unit arg) m ∧ (Ascends w l → Ascends (cancel cfg w unit arg) m) := by
  unfold Timeouts.cancel
  by_cases hbd : w.ready=false ∨ unitOk unit=false
  · rw [if_pos hbd]
    exact ⟨l,⟨h.ready,h.chain,h.mem,h.keys,h.count⟩,id⟩
  rw [if_neg hbd]
  rcases h.find unit arg with ⟨hf,-⟩|⟨i,hi,hf,-⟩
  · rw [hf]
    exact ⟨l,h.report .busy,id⟩
  · rw [hf]
    exact ⟨l.erase i,(h.drop hi).1.report .ok,fun ha => ha.drop h hi⟩

theorem Threaded.tick (now : BitVec 32) : Threaded cfg (tick w now) l ∧ (tick w now).slot=w.slot := by
  unfold Timeouts.tick
  rw [if_pos h.ready]
  exact ⟨⟨h.ready,h.chain,h.mem,h.keys,h.count⟩,rfl⟩

/-- What `expire` does: nothing to the list while its first deadline is ahead, or that slot is taken and reported. -/
inductive Expires (cfg : Config) (w : Work) (l : List ℕ) (u : Work) : Prop
  | busy (h : Threaded cfg u l) (hslot : u.slot=w.slot) (hnow : u.nowMs=w.nowMs) (hstatus : u.io.status=.busy)
      (hahead : ∀ i t,l=i::t → before w.nowMs (w.slot i).deadlineMs)
  | taken (i : ℕ) (t : List ℕ) (hl : l=i::t) (hdue : before w.nowMs (w.slot i).deadlineMs=false) (h : Threaded cfg u t)
      (hdata : ∀ j∈t,(u.slot j).data=(w.slot j).data) (hnow : u.nowMs=w.nowMs) (hstatus : u.io.status=.ok)
      (hio : (u.io.unit,u.io.arg,u.io.deadlineMs)=((w.slot i).unit,(w.slot i).arg,(w.slot i).deadlineMs))

theorem Threaded.expire : Expires cfg w l (expire cfg w) := by
  unfold Timeouts.expire
  rw [if_neg (by simp [h.ready])]
  cases l with
  | nil =>
    have hh : w.head=none8 := h.chain
    rw [if_pos (.inl hh)]
    exact .busy ⟨h.ready,h.chain,h.mem,h.keys,h.count⟩ rfl rfl rfl fun i t hl => absurd hl (cons_ne_nil i t).symm
  | cons i t =>
    obtain rfl : i=w.head := h.chain.1.symm
    have hi : w.head∈w.head::t := mem_cons_self
    have hne : w.head≠none8 := ((Path.lt h.chain hi).trans_le cfg.timeouts_le).ne
    have hnd := h.chain.nodup cfg.timeouts_le
    by_cases hah : before w.nowMs (w.slot w.head).deadlineMs
    · rw [if_pos (.inr hah)]
      refine .busy ⟨h.ready,h.chain,h.mem,h.keys,h.count⟩ rfl rfl rfl fun j m hl => ?_
      rw [←(cons.inj hl).1]
      exact hah
    rw [if_neg fun hor => hor.elim hne hah]
    generalize hv : Work.mk w.ready w.nowMs w.head w.armed w.slot _=v
    have hvt : Threaded cfg v (w.head::t) := by
      subst hv
      exact ⟨h.ready,h.chain,h.mem,h.keys,h.count⟩
    obtain ⟨ht,hd⟩ := hvt.drop hi
    obtain ⟨-,hr⟩ := unlink_chain hvt.chain hi
    rw [erase_cons_head] at ht
    subst hv
    refine .taken w.head t rfl (Bool.eq_false_iff.2 hah) (ht.report .ok) (fun j hj => ?_) hr.nowMs rfl ?_
    · exact hd j fun hji => (nodup_cons.1 hnd).1 (hji ▸ hj)
    · show ((unlink cfg _ w.head).io.unit,(unlink cfg _ w.head).io.arg,(unlink cfg _ w.head).io.deadlineMs)=_
      rw [hr.io]

/-- A deadline that is armed lies in one window with those the other keys hold. -/
def Fits (cfg : Config) (w : Work) : Call → Prop
  | .arm a => ∃ b,Within b a.deadlineMs ∧ ∀ i < cfg.timeouts,(w.slot i).armed →
      ¬((w.slot i).unit=a.unit ∧ (w.slot i).arg=a.arg) → Within b (w.slot i).deadlineMs
  | _ => True

/-- Every call leaves the armed slots threaded, and ascending if what is armed fits. -/
theorem Threaded.step (c : Call) :
    ∃ m,Threaded cfg (step cfg w c) m ∧ (Ascends w l → Fits cfg w c → Ascends (step cfg w c) m) := by
  cases c with
  | arm a =>
    have har := h.arm a
    by_cases has : Ascends w l ∧ Fits cfg w (.arm a)
    · obtain ⟨ha,b,hsl,hft⟩ := has
      obtain ⟨m,ht,hm⟩ := ha.arm h har hsl hft
      exact ⟨m,ht,fun _ _ => hm⟩
    cases har with
    | kept ht _ => exact ⟨l,ht,fun ha hf => absurd ⟨ha,hf⟩ has⟩
    | placed i m v ht => exact ⟨_,ht,fun ha hf => absurd ⟨ha,hf⟩ has⟩
  | cancel unit arg =>
    obtain ⟨m,ht,hm⟩ := h.cancel unit arg
    exact ⟨m,ht,fun ha _ => hm ha⟩
  | tick nowMs =>
    obtain ⟨ht,hs⟩ := h.tick nowMs
    refine ⟨l,ht,fun ha _ => ?_⟩
    show l.Pairwise fun i j => before ((Timeouts.tick w nowMs).slot j).deadlineMs ((Timeouts.tick w nowMs).slot i).deadlineMs=false
    rw [hs]
    exact ha
  | expire =>
    show ∃ m,Threaded cfg (Timeouts.expire cfg w) m ∧ (_ → _ → Ascends (Timeouts.expire cfg w) m)
    have hex := h.expire
    generalize Timeouts.expire cfg w=u at *
    cases hex with
    | busy ht hs =>
      refine ⟨l,ht,fun ha _ => ?_⟩
      rw [Ascends,hs]
      exact ha
    | taken i t hl _ ht hd =>
      refine ⟨t,ht,fun ha _ => ?_⟩
      subst hl
      refine List.Pairwise.imp_of_mem (fun {j k} hj hk hjk => ?_) (pairwise_cons.1 ha).2
      have hdj : (u.slot j).deadlineMs=(w.slot j).deadlineMs := congrArg Prod.fst (hd j hj)
      have hdk : (u.slot k).deadlineMs=(w.slot k).deadlineMs := congrArg Prod.fst (hd k hk)
      rw [hdj,hdk]
      exact hjk

omit h in
theorem clear_threaded {cfg : Config} {w : Work} : Threaded cfg (clear w) [] :=
  ⟨rfl,rfl,fun i => by simp [clear,Work.report,Entry.zero,Entry.armed],fun _ hi => absurd hi not_mem_nil,rfl⟩

/-- Every run leaves the armed slots threaded, and ascending if what was armed fitted. -/
theorem run_threaded (cs : List Call) : ∃ m,Threaded cfg (run (step cfg) w cs) m ∧
      (Ascends w l → Along (step cfg) (Fits cfg) w cs → Ascends (run (step cfg) w cs) m) := by
  induction cs generalizing w l with
  | nil => exact ⟨l,h,fun ha _ => ha⟩
  | cons c cs ih =>
    obtain ⟨m,hm,ham⟩ := h.step c
    obtain ⟨n,hn,han⟩ := ih hm
    exact ⟨n,hn,fun ha hf => han (ham ha hf.1) hf.2⟩

/-- The deadline of a slot is reached. -/
def reached (w : Work) (i : ℕ) : Bool := !before w.nowMs (w.slot i).deadlineMs

/-- What a slot is reported as. -/
def Entry.key (e : Entry) : BitVec 8×BitVec 8×BitVec 32 := (e.unit,e.arg,e.deadlineMs)

/-- What a call hands out. -/
def handed (cfg : Config) (w : Work) : Call → List (BitVec 8×BitVec 8×BitVec 32)
  | .expire =>
    let u := expire cfg w
    if u.io.status=.ok then [(u.io.unit,u.io.arg,u.io.deadlineMs)] else []
  | _ => []

omit h in
theorem reached_iff (hb : Within b (w.slot i).deadlineMs) (hnow : Within b w.nowMs) :
    reached w i ↔ ((w.slot i).deadlineMs-b).toNat≤(w.nowMs-b).toNat := by
  rw [reached,Bool.not_eq_true',←Bool.not_eq_true,before_iff hnow hb]
  exact Nat.not_lt

variable (ha : Ascends w l) (hb : Fit cfg w b) (hnow : Within b w.nowMs)
include ha hb hnow

theorem Threaded.none_reached (hah : ∀ i t,l=i::t → before w.nowMs (w.slot i).deadlineMs) : ∀ j∈l,reached w j=false := by
  cases l with
  | nil => exact fun j hj => absurd hj not_mem_nil
  | cons i t =>
    have hw : ∀ j∈i::t,Within b (w.slot j).deadlineMs := fun j hj => hb j ((h.mem j).1 hj).1 ((h.mem j).1 hj).2
    have has := pairwise_cons.1 ((h.ascends_iff hb).1 ha)
    have hf := (before_iff hnow (hw i mem_cons_self)).1 (hah i t rfl)
    intro j hj
    rw [←Bool.not_eq_true,reached_iff (hw j hj) hnow,Nat.not_le]
    rcases mem_cons.1 hj with rfl|hjt
    · exact hf
    · exact hf.trans_le (has.1 j hjt)

/-- Calls of `expire` hand out what is reached in the order of the list. -/
theorem Threaded.drain (n : ℕ) : outputs (Timeouts.step cfg) (handed cfg) w (List.replicate n .expire)=
      ((l.filter (reached w)).take n).map fun i => (w.slot i).key := by
  induction n generalizing w l with
  | zero => rfl
  | succ n ih =>
    show handed cfg w .expire++outputs (Timeouts.step cfg) (handed cfg) (Timeouts.expire cfg w) (replicate n .expire)=_
    have hex := h.expire
    have hh : handed cfg w .expire=if (Timeouts.expire cfg w).io.status=.ok then
      [((Timeouts.expire cfg w).io.unit,(Timeouts.expire cfg w).io.arg,(Timeouts.expire cfg w).io.deadlineMs)] else [] := rfl
    rw [hh]
    generalize Timeouts.expire cfg w=u at *
    cases hex with
    | busy ht hsl hnow' hs hah =>
      have hn := h.none_reached ha hb hnow hah
      have hr : reached u=reached w := by
        funext j
        rw [reached,reached,hsl,hnow']
      have he : l.filter (reached w)=[] := filter_eq_nil_iff.2 fun j hj => by simp [hn j hj]
      have hrs := ih ht (by rw [Ascends,hsl]; exact ha) (by rw [Fit,hsl]; exact hb) (by rw [hnow']; exact hnow)
      rw [hr,he,take_nil,map_nil] at hrs
      rw [hrs,he,hs]
      rfl
    | taken i t hl hdu ht hdt hnow' hs hio =>
      subst hl
      have hd : ∀ j∈t,(u.slot j).deadlineMs=(w.slot j).deadlineMs := fun j hj => congrArg Prod.fst (hdt j hj)
      have hk : ∀ j∈t,(u.slot j).key=(w.slot j).key := by
        intro j hj
        have hj' := hdt j hj
        simp only [Entry.data,Prod.mk.injEq] at hj'
        simp only [Entry.key,hj'.1,hj'.2.1,hj'.2.2.1]
      have hr : ∀ j∈t,reached u j=reached w j := fun j hj => by rw [reached,reached,hd j hj,hnow']
      have has : Ascends u t := by
        refine List.Pairwise.imp_of_mem (fun {j k} hj hk hjk => ?_) (pairwise_cons.1 ha).2
        rw [hd j hj,hd k hk]
        exact hjk
      have hft : Fit cfg u b := fun j hj hja => by
        have hjt := (ht.mem j).2 ⟨hj,hja⟩
        have hjl := (h.mem j).1 (mem_cons_of_mem i hjt)
        rw [hd j hjt]
        exact hb j hj hjl.2
      have hf : reached w i := by rw [reached,hdu]; rfl
      rw [ih ht has hft (by rw [hnow']; exact hnow),filter_congr hr,filter_cons_of_pos hf,
        take_succ_cons,map_cons,if_pos hs,hio]
      refine congrArg _ (map_congr_left fun j hj => hk j ?_)
      exact mem_of_mem_filter (mem_of_mem_take hj)

/-- `expire` is busy exactly while nothing is reached. -/
theorem Threaded.busy_iff :
    (Timeouts.expire cfg w).io.status=.busy ↔ ∀ i < cfg.timeouts,(w.slot i).armed → reached w i=false := by
  cases h.expire with
  | busy _ _ _ hs hah =>
    have hn := h.none_reached ha hb hnow hah
    exact ⟨fun _ i hi hia => hn i ((h.mem i).2 ⟨hi,hia⟩),fun _ => hs⟩
  | taken i t hl hd _ _ _ hs _ =>
    rw [hs]
    refine ⟨fun hbs => Status.noConfusion hbs,fun hal => ?_⟩
    obtain ⟨hin,hia⟩ := (h.mem i).1 (hl ▸ mem_cons_self)
    have hno := hal i hin hia
    rw [reached,hd] at hno
    cases hno

end Steps

/-- From `clear` the list is the armed slots, each key once. If each deadline was armed in one window with the others,
then in every state in a window the list ascends, and `expire` hands out exactly the reached ones in order. -/
theorem run_deadlines (cfg : Config) (w : Work) (cs : List Call) :
    let s := run (step cfg) (clear w) cs
    ∃ l,Chain s.next cfg.timeouts none8 s.head l ∧ l.Nodup ∧ (∀ i,i∈l ↔ i < cfg.timeouts ∧ (s.slot i).armed=true) ∧
      (∀ i∈l,∀ j∈l,(s.slot i).unit=(s.slot j).unit → (s.slot i).arg=(s.slot j).arg → i=j) ∧
      (Along (step cfg) (Fits cfg) (clear w) cs → ∀ b,Fit cfg s b → Within b s.nowMs →
        (l.Pairwise fun i j => ((s.slot i).deadlineMs-b).toNat≤((s.slot j).deadlineMs-b).toNat) ∧
        (∀ i∈l,reached s i=true ↔ ((s.slot i).deadlineMs-b).toNat≤(s.nowMs-b).toNat) ∧
        ((expire cfg s).io.status=.busy ↔ ∀ i < cfg.timeouts,(s.slot i).armed=true → reached s i=false) ∧
        ∀ n,outputs (step cfg) (handed cfg) s (replicate n .expire)=((l.filter (reached s)).take n).map fun i => (s.slot i).key) := by
  intro s
  obtain ⟨l,h,hasc⟩ := run_threaded (clear_threaded) cs
  refine ⟨l,h.chain,h.chain.nodup cfg.timeouts_le,h.mem,h.keys,fun hfits b hb hnow => ?_⟩
  have ha : Ascends s l := hasc List.Pairwise.nil hfits
  refine ⟨(h.ascends_iff hb).1 ha,fun i hi => ?_,h.busy_iff ha hb hnow,h.drain ha hb hnow⟩
  exact reached_iff (hb i ((h.mem i).1 hi).1 ((h.mem i).1 hi).2) hnow

/-- A deadline held for each of three units, the third more than half the circle behind the second. -/
def spread : List Call := [.arm ⟨0,1,0,0⟩,.arm ⟨0x60000000,2,0,0⟩,.arm ⟨0xC0000000,3,0,0⟩,.cancel 1 0,.tick 0x60000000]

/-- A borrow before `clear`. -/
def Work.blank : Work := ⟨false,0,0,0,fun _ => .zero,⟨.err,0,0,0,0,0⟩⟩

instance (b x : BitVec 32) : Decidable (Within b x) := inferInstanceAs (Decidable (_<_))

/-- Deadlines armed far apart stay out of order: all lie in one window, but `expire` is busy with the second reached. -/
theorem spread_disorder :
    let s := run (step .shipped) (clear .blank) spread
    Fit .shipped s 0x60000000 ∧ Within 0x60000000 s.nowMs ∧ Chain s.next 17 none8 s.head [2,1] ∧
      ((s.slot 1).deadlineMs-0x60000000).toNat<((s.slot 2).deadlineMs-0x60000000).toNat ∧
      (s.slot 1).armed=true ∧ reached s 1=true ∧ (expire .shipped s).io.status=.busy := by
  refine ⟨?_,by decide,?_,by decide,by decide,by decide,by decide⟩
  · unfold Fit
    decide
  · unfold Chain IndexChain.Path IndexChain.Path IndexChain.Path
    decide

/-- Two deadlines armed in one window are handed out in their order. -/
theorem run_deadlines_two :
    let cs : List Call := [.arm ⟨20,1,0,0⟩,.arm ⟨10,2,0,0⟩,.tick 30]
    Along (step .shipped) (Fits .shipped) (clear .blank) cs ∧
      outputs (step .shipped) (handed .shipped) (run (step .shipped) (clear .blank) cs) (replicate 3 .expire)=
        [(2,0,10),(1,0,20)] := by
  intro cs
  have hfits : Along (step .shipped) (Fits .shipped) (clear .blank) cs := by
    refine ⟨⟨0,by decide,by decide⟩,⟨0,by decide,by decide⟩,trivial,trivial⟩
  obtain ⟨l,hc,-,-,-,hrest⟩ := run_deadlines .shipped .blank cs
  have hl : l=[1,0] := hc.unique (by decide) (by unfold Chain IndexChain.Path IndexChain.Path IndexChain.Path; decide)
  obtain ⟨-,-,-,hdrain⟩ := hrest hfits 0 (by unfold Fit; decide) (by decide)
  refine ⟨hfits,(hdrain 3).trans ?_⟩
  rw [hl]
  decide

end Unit

end IdemIp.Timeouts
