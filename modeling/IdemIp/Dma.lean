import IdemIp.Config
import Mathlib.Logic.Function.Basic
import IdemIp.IndexChain
import IdemIp.StepRun
import Mathlib.Algebra.Order.BigOperators.Group.Finset

/-!
# The receive ring and its pins, `dma.c`

A descriptor the stack has not finished with is pinned, and goes back to the
engine when its last pin is gone and the receive loop has posted it. The units
above call the abstraction `Ring`, its pins and owners alone; `dma.c` refines it.
-/

namespace IdemIp.Dma

section Rings

/-- One receive descriptor, `DmaDesc`. -/
structure Desc where
  pins : ℕ
  /-- The receive loop holds it, `IDEMIP_DMA_FLAG_HELD`. -/
  held : Bool
  /-- The engine owns it, `IDEMIP_DMA_FLAG_OWN`. -/
  own : Bool

/-- One ring, `DmaCtx` and its receive descriptors. -/
structure Ring where
  /-- Whether `clear` has marked it. -/
  (ready bound : Bool)
  pinned : ℕ
  desc : ℕ → Desc

variable (cfg : Config) (r : Ring) (i : ℕ)

/-- Whether the ring may be asked about a descriptor. -/
def Ring.usable : Bool := r.ready && r.bound && i < cfg.rxDescriptors

/-- Take a pin, `idemip_dma_pin`. -/
def pin : Ring×Status :=
  if !r.usable cfg i then (r,.err)
  else if !(r.desc i).held && (r.desc i).pins==0 then (r,.err)
  else if cfg.maxPinnedFrames ≤ r.pinned then (r,.busy)
  else ({r with
    pinned := r.pinned+1
    desc := Function.update r.desc i {r.desc i with pins := (r.desc i).pins+1}},.ok)

/-- A descriptor after its last pin is gone: back to the engine unless the receive loop holds it. -/
def Desc.unpinned (d : Desc) : Desc :=
  if d.pins-1=0 ∧ d.held=false then ⟨d.pins-1,false,true⟩ else {d with pins := d.pins-1}

/-- Give a pin back, `idemip_dma_unpin`. -/
def unpin : Ring×Status :=
  if !r.usable cfg i then (r,.err)
  else if (r.desc i).pins=0 then (r,.err)
  else ({r with
    pinned := r.pinned-1
    desc := Function.update r.desc i (r.desc i).unpinned},.ok)

/-- A refused pin leaves the ring; a pin taken adds one to its descriptor and to no other. -/
theorem pin_cases : (pin cfg r i).1=r ∧ (pin cfg r i).2≠.ok ∨
    (pin cfg r i).2=.ok ∧ r.usable cfg i=true ∧ (pin cfg r i).1.usable cfg=r.usable cfg ∧
      ∀ j,((pin cfg r i).1.desc j).pins=(r.desc j).pins+if j=i then 1 else 0 := by
  unfold pin
  by_cases hu : r.usable cfg i=true
  · rw [if_neg (by simp [hu])]
    split_ifs
    · exact .inl ⟨rfl,by simp⟩
    · exact .inl ⟨rfl,by simp⟩
    refine .inr ⟨rfl,hu,rfl,fun j => ?_⟩
    by_cases hj : j=i <;> simp [hj]
  · rw [if_pos (by simpa using hu)]
    exact .inl ⟨rfl,by simp⟩

end Rings

section Driver

open IndexChain StepRun Function

/-- Marks of a descriptor, `IdemIpDmaFlag`. -/
structure Flags where
  own : Bool
  /-- The receive loop took it and has not posted it. -/
  (held err : Bool)
  /-- It holds the last octets of a frame. -/
  last : Bool
deriving DecidableEq

def Flags.none : Flags := ⟨false,false,false,false⟩

def Flags.engine : Flags := {Flags.none with own := true}

/-- A receive descriptor with its buffer, `DmaDesc`. -/
structure RxDesc where
  buf : Option ℕ
  len : BitVec 16
  flags : Flags
  pins : BitVec 8

/-- What a call reports, from `DmaIo`. -/
structure Io where
  status : Status
  buf : Option ℕ
  len : BitVec 16
  flags : Flags
  pinned : BitVec 16
  index : ℕ
  pins : BitVec 8

/-- The receive side of the borrow, and how often the driver's `rx_release` was called. -/
structure Rx where
  /-- Whether `clear` has marked it. -/
  (ready drv : Bool)
  rxHead : ℕ
  pinned : BitVec 16
  desc : ℕ → RxDesc
  io : Io
  /-- Calls of `rx_release` so far. -/
  releases : ℕ

/-- Which hooks of a driver are there, `IdemIpPhyDriver`. -/
structure Driver where
  /-- `cache_invalidate`. -/
  cacheInvalidate : Bool
  /-- `cache_clean`. -/
  cacheClean : Bool
  /-- `rx_claim`. -/
  rxClaim : Bool
  /-- `rx_release`. -/
  rxRelease : Bool
  /-- `tx_claim`. -/
  txClaim : Bool
  /-- `tx_commit`. -/
  txCommit : Bool

/-- Operands of `bind`, `DmaBindArgs`. -/
structure BindArgs where
  drv : Option Driver
  (rxBase txBase : Option ℕ)

section Entries

variable (cfg : Config) (w : Rx) (i : ℕ)

def Rx.status (w : Rx) (s : Status) : Rx := {w with io := {w.io with status := s}}

/-- Zero the context and the ring, `idemip_dma_clear`. -/
def clear : Rx :=
  ⟨true,false,0,0,fun _ => ⟨none,0,.none,0⟩,{w.io with status := .ok},w.releases⟩

/-- Whether `bind` accepts a driver. -/
def Driver.complete (d : Driver) : Bool :=
  d.cacheInvalidate && d.cacheClean && d.rxClaim && d.rxRelease && d.txClaim && d.txCommit

/-- A receive descriptor as `bind` fills it: the engine's, at its stride from the base. -/
def RxDesc.fresh (base i : ℕ) : RxDesc := ⟨some (base+i*cfg.dmaBufStride),0,.engine,0⟩

/-- Give the ring its driver and its buffers, the receive half of `idemip_dma_bind`. -/
def bind (a : BindArgs) : Rx :=
  match a.drv,a.rxBase,a.txBase with
  | some drv,some rxBase,some txBase =>
    if !w.ready || !drv.complete then w.status .err
    else if (rxBase ||| txBase) &&& (cfg.cacheLineBytes-1)≠0 then w.status .err
    else {w with
      drv := true
      rxHead := 0
      pinned := 0
      desc := fun i => if i < cfg.rxDescriptors then .fresh cfg rxBase i else w.desc i
      io := {w.io with status := .ok}}
  | _,_,_ => w.status .err

/-- Place `n` behind a start, with the wrap of a mask. -/
def slotAt (start n : ℕ) : ℕ := start+n &&& cfg.rxDescriptors-1

/-- The descriptor whose buffer is at an address, from a start on, `dma_slot_of`. -/
def slotOf (start addr : ℕ) : Option ℕ :=
  (firstIndex cfg.rxDescriptors fun n => (w.desc (slotAt cfg start n)).buf==some addr).map (slotAt cfg start)

/-- Hand a descriptor back to the engine, `dma_rx_give_back`. -/
def giveBack : Rx :=
  {w with
    releases := w.releases+1
    desc := update w.desc i {w.desc i with len := 0,flags := .engine}}

/-- The operand block as `rx_take` blanks it. -/
def Io.blank (io : Io) : Io := {io with status := .err,buf := none,len := 0,flags := .none,pins := 0,index := 0}

/-- Take a received frame, `idemip_dma_rx_take`: `len` and `frame` are what the driver's `rx_claim` offers. -/
def rxTake (len : ℕ) (frame : Option ℕ) : Rx :=
  let u := {w with io := w.io.blank}
  if !w.ready || !w.drv then u
  else match frame with
    | none => u.status .busy
    | some addr =>
      if len=0 then u.status .busy
      else if cfg.dmaFrameMax<len then
        {u with releases := w.releases+1,io := {u.io with flags := {Flags.none with err := true}}}
      else match slotOf cfg w (w.rxHead &&& cfg.rxDescriptors-1) addr with
        | none => u
        | some slot =>
          if !(w.desc slot).flags.own then u
          else
            let d := {w.desc slot with
              len := BitVec.ofNat 16 len
              flags := {Flags.none with held := true,last := true}}
            {u with
              desc := update w.desc slot d
              rxHead := slot+1
              io := ⟨.ok,d.buf,d.len,d.flags,w.pinned,slot,d.pins⟩}

/-- Whether a call may reach a descriptor. -/
def Rx.reaches : Bool := w.ready && w.drv && i < cfg.rxDescriptors

/-- Report the descriptor a call reached. -/
def Rx.reached : Rx :=
  {w with io := {w.io with
    status := .ok,index := i,flags := (w.desc i).flags,pins := (w.desc i).pins,pinned := w.pinned}}

/-- End the hold on a descriptor, `idemip_dma_rx_post`. -/
def rxPost : Rx :=
  if !w.reaches cfg i then w.status .err
  else if !(w.desc i).flags.held then w.status .err
  else
    let u := if 0<(w.desc i).pins then
        {w with desc := update w.desc i {w.desc i with flags := {(w.desc i).flags with held := false}}}
      else giveBack w i
    let v := u.reached i
    {v with io := {v.io with buf := none,len := 0}}

/-- Pin a descriptor, `idemip_dma_pin`. -/
def Rx.pin : Rx :=
  let u := {w with io := {w.io with status := .err,pins := 0}}
  if !w.reaches cfg i then u
  else
    let u := {u with io := {u.io with pinned := w.pinned}}
    if !(w.desc i).flags.held && (w.desc i).pins==0 then u
    else if cfg.maxPinnedFrames≤w.pinned.toNat then {u with io := {u.io with pins := (w.desc i).pins,status := .busy}}
    else Rx.reached {u with
      pinned := w.pinned+1
      desc := update w.desc i {w.desc i with pins := (w.desc i).pins+1}} i

/-- Take a pin off it, `idemip_dma_unpin`. -/
def Rx.unpin : Rx :=
  let u := {w with io := {w.io with status := .err,pins := 0}}
  if !w.reaches cfg i then u
  else
    let u := {u with io := {u.io with pinned := w.pinned}}
    if (w.desc i).pins=0 then u
    else
      let d := {w.desc i with pins := (w.desc i).pins-1}
      let u := {u with pinned := w.pinned-1,desc := update w.desc i d}
      (if d.pins==0 && !d.flags.held then giveBack u i else u).reached i

/-- Report the pins on the ring, `idemip_dma_pinned`. -/
def Rx.total : Rx :=
  if !w.ready then {w with io := {w.io with status := .err,pinned := 0}}
  else {w with io := {w.io with status := .ok,pinned := w.pinned}}

/-- A call on the receive side. -/
inductive RxCall
  | take (len : ℕ) (frame : Option ℕ)
  | post (i : ℕ)
  | pin (i : ℕ)
  | unpin (i : ℕ)
  | total

/-- Whether it is `rx_take`. -/
def RxCall.isTake : RxCall → Bool
  | .take _ _ => true
  | _ => false

def rxStep : RxCall → Rx
  | .take len frame => rxTake cfg w len frame
  | .post i => rxPost cfg w i
  | .pin i => w.pin cfg i
  | .unpin i => w.unpin cfg i
  | .total => w.total

end Entries

section Moves

variable (cfg : Config) (w : Rx)

/-- Every way a call can go, with what it did to the descriptor it reached. -/
inductive Moved : RxCall → Rx → Prop
  /-- It was refused, and the driver was asked to drop a frame only when that is longer than a buffer. -/
  | refused (c : RxCall) (io : Io) (n : ℕ) (hst : io.status≠.ok)
    (hn : n=w.releases ∨ n=w.releases+1 ∧ ∃ len addr,c=.take len (some addr) ∧ cfg.dmaFrameMax<len) :
    Moved c {w with io := io,releases := n}
  | total (io : Io) (hio : io.pinned=w.pinned) : Moved .total {w with io := io}
  | take (len : ℕ) (frame : Option ℕ) (i : ℕ) (hi : i < cfg.rxDescriptors) (hown : (w.desc i).flags.own) (d : RxDesc)
    (hd : d.flags.own=false ∧ d.flags.held ∧ d.pins=(w.desc i).pins) (io : Io)
    (hio : io.status=.ok ∧ io.index=i ∧ io.pinned=w.pinned) (head : ℕ) :
    Moved (.take len frame) {w with desc := update w.desc i d,rxHead := head,io := io}
  | post (i : ℕ) (hi : i < cfg.rxDescriptors) (hheld : (w.desc i).flags.held) (hp : (w.desc i).pins≠0) (io : Io)
    (hio : io.pinned=w.pinned) :
    Moved (.post i) {w with desc := update w.desc i {w.desc i with flags := {(w.desc i).flags with held := false}},io := io}
  /-- It ended with none, so the descriptor went back. -/
  | postBack (i : ℕ) (hi : i < cfg.rxDescriptors) (hheld : (w.desc i).flags.held) (hp : (w.desc i).pins=0) (io : Io)
    (hio : io.pinned=w.pinned) :
    Moved (.post i) {w with
        releases := w.releases+1
        desc := update w.desc i {w.desc i with len := 0,flags := .engine}
        io := io}
  /-- A descriptor out of the engine's hands was pinned. -/
  | pin (i : ℕ) (hi : i < cfg.rxDescriptors) (hout : (w.desc i).flags.held ∨ (w.desc i).pins≠0)
    (hroom : w.pinned.toNat < cfg.maxPinnedFrames) (io : Io) (hio : io.pinned=w.pinned+1) :
    Moved (.pin i) {w with
        pinned := w.pinned+1
        desc := update w.desc i {w.desc i with pins := (w.desc i).pins+1}
        io := io}
  /-- A pin came off one that stays out. -/
  | unpin (i : ℕ) (hi : i < cfg.rxDescriptors) (hp : (w.desc i).pins≠0)
    (hkeep : (w.desc i).pins-1≠0 ∨ (w.desc i).flags.held) (io : Io) (hio : io.pinned=w.pinned-1) :
    Moved (.unpin i) {w with
        pinned := w.pinned-1
        desc := update w.desc i {w.desc i with pins := (w.desc i).pins-1}
        io := io}
  /-- The last pin came off one no longer held, so the descriptor went back. -/
  | unpinBack (i : ℕ) (hi : i < cfg.rxDescriptors) (hp : (w.desc i).pins≠0) (hlast : (w.desc i).pins-1=0)
    (hheld : (w.desc i).flags.held=false) (io : Io) (hio : io.pinned=w.pinned-1) :
    Moved (.unpin i) {w with
        releases := w.releases+1
        pinned := w.pinned-1
        desc := update w.desc i {w.desc i with pins := (w.desc i).pins-1,len := 0,flags := .engine}
        io := io}

theorem slotOf_lt {start addr i : ℕ} (h : slotOf cfg w start addr=some i) : i < cfg.rxDescriptors := by
  obtain ⟨n,hn,rfl⟩ := Option.map_eq_some_iff.1 h
  have hp : 0 < cfg.rxDescriptors := Nat.zero_lt_of_lt cfg.maxPinnedFrames_lt
  have hle : slotAt cfg start n ≤ cfg.rxDescriptors-1 := Nat.and_le_right
  omega

theorem rxTake_moved {len : ℕ} {fr : Option ℕ} : Moved cfg w (.take len fr) (rxTake cfg w len fr) := by
  unfold rxTake
  split
  · exact .refused _ _ _ (by simp [Io.blank]) (.inl rfl)
  cases fr with
  | none => exact .refused _ _ _ (by simp) (.inl rfl)
  | some addr =>
    dsimp only
    split_ifs with hz hl
    · exact .refused _ _ _ (by simp) (.inl rfl)
    · exact .refused _ _ _ (by simp [Io.blank]) (.inr ⟨rfl,len,addr,rfl,hl⟩)
    cases hs : slotOf cfg w (w.rxHead &&& cfg.rxDescriptors-1) addr with
    | none => exact .refused _ _ _ (by simp [Io.blank]) (.inl rfl)
    | some i =>
      dsimp only
      split_ifs with ho
      · exact .refused _ _ _ (by simp [Io.blank]) (.inl rfl)
      refine .take len (some addr) i (slotOf_lt cfg w hs) (by simpa using ho) _ ?_ _ ?_ _
      · exact ⟨rfl,rfl,rfl⟩
      · exact ⟨rfl,rfl,rfl⟩

theorem reaches_lt {i : ℕ} (h : w.reaches cfg i) : i < cfg.rxDescriptors := by
  simp only [Rx.reaches,Bool.and_eq_true,decide_eq_true_eq] at h
  exact h.2

theorem rxPost_moved (i : ℕ) : Moved cfg w (.post i) (rxPost cfg w i) := by
  unfold rxPost
  split_ifs with hr hh hp
  · exact .refused _ _ _ (by simp) (.inl rfl)
  · exact .refused _ _ _ (by simp) (.inl rfl)
  · exact .post i (reaches_lt cfg w (by simpa using hr)) (by simpa using hh) ((BitVec.pos_iff_ne_zero _).1 hp) _ rfl
  · have hz : (w.desc i).pins=0 := by_contra fun h => hp ((BitVec.pos_iff_ne_zero _).2 h)
    exact .postBack i (reaches_lt cfg w (by simpa using hr)) (by simpa using hh) hz _ rfl

theorem pin_moved (i : ℕ) : Moved cfg w (.pin i) (w.pin cfg i) := by
  unfold Rx.pin
  split_ifs with hr ho hrm
  · exact .refused _ _ _ (by simp) (.inl rfl)
  · exact .refused _ _ _ (by simp) (.inl rfl)
  · exact .refused _ _ _ (by simp) (.inl rfl)
  have hout' : (w.desc i).flags.held ∨ (w.desc i).pins≠0 := by
    by_contra hno
    push Not at hno
    simp [hno.1,hno.2] at ho
  exact .pin i (reaches_lt cfg w (by simpa using hr)) hout' (Nat.lt_of_not_le hrm) _ rfl

theorem unpin_moved (i : ℕ) : Moved cfg w (.unpin i) (w.unpin cfg i) := by
  unfold Rx.unpin
  dsimp only
  split_ifs with hr hp hl
  · exact .refused _ _ _ (by simp) (.inl rfl)
  · exact .refused _ _ _ (by simp) (.inl rfl)
  · have hb : (w.desc i).pins-1=0 ∧ (w.desc i).flags.held=false := by simpa using hl
    have hbc : ∀ u : Rx,giveBack {u with desc := update w.desc i {w.desc i with pins := (w.desc i).pins-1}} i={u with
          releases := u.releases+1
          desc := update w.desc i {w.desc i with pins := (w.desc i).pins-1,len := 0,flags := .engine}} := by
      intro u
      simp [giveBack]
    rw [hbc {w with pinned := w.pinned-1,io := {w.io with status := .err,pins := 0,pinned := w.pinned}}]
    exact .unpinBack i (reaches_lt cfg w (by simpa using hr)) hp hb.1 hb.2 _ rfl
  · have hk : (w.desc i).pins-1≠0 ∨ (w.desc i).flags.held := by
      by_contra hno
      rw [not_or,not_not] at hno
      exact hl (by simp only [hno.1,hno.2,beq_self_eq_true]; rfl)
    exact .unpin i (reaches_lt cfg w (by simpa using hr)) hp hk _ rfl

theorem rxStep_moved (c : RxCall) : Moved cfg w c (rxStep cfg w c) := by
  cases c with
  | take len frame => exact rxTake_moved cfg w
  | post i => exact rxPost_moved cfg w i
  | pin i => exact pin_moved cfg w i
  | unpin i => exact unpin_moved cfg w i
  | total =>
    show Moved cfg w .total w.total
    unfold Rx.total
    split_ifs
    · exact .refused _ _ _ (by simp) (.inl rfl)
    · exact .total _ rfl

end Moves

/-- Where a descriptor is. -/
inductive Situation
  | engine | held | pinned

/-- The marks and pins of each situation. -/
def RxDesc.In (d : RxDesc) : Situation → Prop
  | .engine => d.flags.own ∧ d.flags.held=false ∧ d.pins=0
  | .held => d.flags.held ∧ d.flags.own=false
  | .pinned => d.flags.own=false ∧ d.flags.held=false ∧ d.pins≠0

def RxDesc.idle (d : RxDesc) : Bool := !d.flags.held && d.pins==0

variable {d : RxDesc}

/-- A descriptor that is the engine's exactly when it is idle is in one of the three. -/
theorem RxDesc.situation (h : d.flags.own=d.idle) : ∃! x,d.In x := by
  unfold RxDesc.idle at h
  cases hh : d.flags.held with
  | true =>
    have hown : d.flags.own=false := by simpa [hh] using h
    refine ⟨.held,⟨hh,hown⟩,fun y hy => ?_⟩
    cases y with
    | engine => simp [RxDesc.In,hown] at hy
    | held => rfl
    | pinned => simp [RxDesc.In,hh] at hy
  | false =>
    by_cases hp : d.pins=0
    · have hown : d.flags.own := by simpa [hh,hp] using h
      refine ⟨.engine,⟨hown,hh,hp⟩,fun y hy => ?_⟩
      cases y with
      | engine => rfl
      | held => simp [RxDesc.In,hh] at hy
      | pinned => simp [RxDesc.In,hown] at hy
    have hown : d.flags.own=false := by
      rw [h,hh,beq_eq_false_iff_ne.2 hp]
      rfl
    refine ⟨.pinned,⟨hown,hh,hp⟩,fun y hy => ?_⟩
    cases y with
    | engine => simp [RxDesc.In,hown] at hy
    | held => simp [RxDesc.In,hh] at hy
    | pinned => rfl

section Runs

variable (cfg : Config)

/-- Pins over the whole ring. -/
def Rx.sum (w : Rx) : ℕ := ∑ i∈Finset.range cfg.rxDescriptors,(w.desc i).pins.toNat

/-- A ring in order: a descriptor is the engine's exactly when idle, and the total is the sum of the pins. -/
structure RingOk (w : Rx) : Prop where
  own : ∀ i < cfg.rxDescriptors,(w.desc i).flags.own=(w.desc i).idle
  total : w.pinned.toNat=w.sum cfg
  bound : w.pinned.toNat ≤ cfg.maxPinnedFrames

variable {cfg} {w : Rx}

variable {u : Rx}

theorem Rx.sum_update {i : ℕ} (hi : i < cfg.rxDescriptors) (hu : u.desc=update w.desc i d) :
    u.sum cfg+(w.desc i).pins.toNat=w.sum cfg+d.pins.toNat := by
  have hm : i∈Finset.range cfg.rxDescriptors := Finset.mem_range.2 hi
  have hr : ∑ j∈(Finset.range cfg.rxDescriptors).erase i,(u.desc j).pins.toNat=
      ∑ j∈(Finset.range cfg.rxDescriptors).erase i,(w.desc j).pins.toNat := by
    refine Finset.sum_congr rfl fun j hj => ?_
    rw [hu,update_of_ne (Finset.ne_of_mem_erase hj)]
  unfold Rx.sum
  rw [←Finset.sum_erase_add _ _ hm,←Finset.sum_erase_add _ (fun j => (w.desc j).pins.toNat) hm,hr,hu,update_self]
  omega

variable (h : RingOk cfg w)
include h

theorem RingOk.pins_le {i : ℕ} (hi : i < cfg.rxDescriptors) : (w.desc i).pins.toNat≤w.pinned.toNat := by
  rw [h.total]
  exact Finset.single_le_sum (f := fun j => (w.desc j).pins.toNat) (fun _ _ => Nat.zero_le _) (Finset.mem_range.2 hi)

/-- Changing one descriptor to one in order, and the total with its pins, keeps the ring in order. -/
theorem RingOk.changed {i : ℕ} (hi : i < cfg.rxDescriptors) (hu : u.desc=update w.desc i d) (hd : d.flags.own=d.idle)
    (ht : u.pinned.toNat+(w.desc i).pins.toNat=w.pinned.toNat+d.pins.toNat)
    (hb : u.pinned.toNat ≤ cfg.maxPinnedFrames) : RingOk cfg u := by
  refine ⟨fun j hj => ?_,?_,hb⟩
  · rw [hu]
    by_cases hji : j=i
    · rw [hji,update_self]
      exact hd
    · rw [update_of_ne hji]
      exact h.own j hj
  · have hs := Rx.sum_update hi hu
    have htt := h.total
    omega

variable {n : ℕ}

omit h in
theorem toNat_sub_one {x : BitVec n} (h : x≠0) : (x-1).toNat=x.toNat-1 ∧ 0<x.toNat := by
  have hp : 0<x.toNat := Nat.pos_of_ne_zero fun h0 => h (BitVec.eq_of_toNat_eq (by simpa using h0))
  have ho : (1 : BitVec n).toNat=1 := by
    show (BitVec.ofNat n 1).toNat=1
    rw [BitVec.toNat_ofNat]
    exact Nat.mod_eq_of_lt (by omega)
  refine ⟨?_,hp⟩
  rw [BitVec.toNat_sub_of_le (BitVec.le_def.2 (by omega)),ho]

theorem RingOk.pinned_succ {i : ℕ} (hi : i < cfg.rxDescriptors) (hr : w.pinned.toNat < cfg.maxPinnedFrames) :
    ((w.desc i).pins+1).toNat=(w.desc i).pins.toNat+1 ∧ (w.pinned+1).toNat=w.pinned.toNat+1 := by
  have hm := cfg.maxPinnedFrames_lt
  have hrx := cfg.rxDescriptors_le
  have hle := h.pins_le hi
  rw [BitVec.toNat_add,BitVec.toNat_add]
  exact ⟨Nat.mod_eq_of_lt (by simp; omega),Nat.mod_eq_of_lt (by simp; omega)⟩

theorem RingOk.unpinned {i : ℕ} (hi : i < cfg.rxDescriptors) (hp : (w.desc i).pins≠0) :
    (w.pinned-1).toNat+(w.desc i).pins.toNat=w.pinned.toNat+((w.desc i).pins-1).toNat ∧
      (w.pinned-1).toNat ≤ cfg.maxPinnedFrames := by
  have hle := h.pins_le hi
  have hb := h.bound
  obtain ⟨hpn,hps⟩ := toNat_sub_one hp
  have hne : w.pinned≠0 := by
    intro h0
    rw [h0] at hle
    simp at hle
    omega
  obtain ⟨ht,-⟩ := toNat_sub_one hne
  omega

variable {c : RxCall}

theorem RingOk.moved (hm : Moved cfg w c u) : RingOk cfg u := by
  have hb := h.bound
  cases hm with
  | refused c io n hst hn => exact ⟨h.own,h.total,h.bound⟩
  | total io hio => exact ⟨h.own,h.total,h.bound⟩
  | take len frame i hi ho d hd io hio head =>
    refine h.changed hi rfl ?_ ?_ hb
    · simp [RxDesc.idle,hd.1,hd.2.1]
    · rw [hd.2.2]
  | post i hi hh hp io hio =>
    refine h.changed hi rfl ?_ rfl hb
    have ho : (w.desc i).flags.own=false := by
      rw [h.own i hi]
      simp [RxDesc.idle,hh]
    rw [ho]
    exact (beq_eq_false_iff_ne.2 hp).symm
  | postBack i hi hh hp io hio =>
    refine h.changed hi rfl ?_ rfl hb
    simp [RxDesc.idle,Flags.engine,Flags.none,hp]
  | pin i hi hot hr io hio =>
    obtain ⟨hpn,htt⟩ := h.pinned_succ hi hr
    refine h.changed hi rfl ?_ ?_ ?_
    · have ho : (w.desc i).flags.own=false := by
        rw [h.own i hi]
        unfold RxDesc.idle
        rcases hot with hh|hp
        · rw [hh]
          rfl
        · rw [beq_eq_false_iff_ne.2 hp,Bool.and_false]
      have hne : (w.desc i).pins+1≠0 := by
        intro hz
        rw [hz] at hpn
        simp at hpn
      rw [ho]
      unfold RxDesc.idle
      rw [beq_eq_false_iff_ne.2 hne,Bool.and_false]
    · show (w.pinned+1).toNat+_=_+((w.desc i).pins+1).toNat
      omega
    · show (w.pinned+1).toNat≤_
      omega
  | unpin i hi hp hk io hio =>
    obtain ⟨ht,hmax'⟩ := h.unpinned hi hp
    refine h.changed hi rfl ?_ ht hmax'
    have ho : (w.desc i).flags.own=false := by
      rw [h.own i hi]
      unfold RxDesc.idle
      rw [beq_eq_false_iff_ne.2 hp,Bool.and_false]
    rw [ho]
    unfold RxDesc.idle
    rcases hk with hne|hh
    · rw [beq_eq_false_iff_ne.2 hne,Bool.and_false]
    · simp [hh]
  | unpinBack i hi hp hl hh io hio =>
    obtain ⟨ht,hmax'⟩ := h.unpinned hi hp
    refine h.changed hi rfl ?_ ht hmax'
    rw [hl]
    rfl

omit h in
/-- A successful `bind` leaves the ring in order. -/
theorem bind_ringOk {a : BindArgs} (h : (bind cfg w a).io.status=.ok) : RingOk cfg (bind cfg w a) := by
  unfold bind at h ⊢
  cases hd : a.drv with
  | none => simp [hd,Rx.status] at h
  | some drv =>
    cases hr : a.rxBase with
    | none => simp [hd,hr,Rx.status] at h
    | some rxBase =>
      cases ht : a.txBase with
      | none => simp [hd,hr,ht,Rx.status] at h
      | some txBase =>
        simp only [hd,hr,ht] at h ⊢
        split_ifs at h ⊢ with hrd hl
        · simp [Rx.status] at h
        · simp [Rx.status] at h
        refine ⟨fun i hi => ?_,?_,Nat.zero_le _⟩
        · dsimp only
          rw [if_pos hi]
          rfl
        · have hz : ∀ i∈Finset.range cfg.rxDescriptors,
              (if i < cfg.rxDescriptors then RxDesc.fresh cfg rxBase i else w.desc i).pins.toNat=0 := by
            intro i hi
            rw [if_pos (Finset.mem_range.1 hi)]
            rfl
          exact (Finset.sum_eq_zero hz).symm

variable (cfg)

/-- Whether a call takes a descriptor. -/
def takes (i : ℕ) (w : Rx) (c : RxCall) : Bool :=
  c.isTake && (rxStep cfg w c).io.status==.ok && (rxStep cfg w c).io.index==i

/-- Whether a call gives a descriptor back: one more `rx_release`, and the engine's mark where it was not. -/
def givesBack (i : ℕ) (w : Rx) (c : RxCall) : Bool :=
  (rxStep cfg w c).releases==w.releases+1 && !(w.desc i).flags.own && ((rxStep cfg w c).desc i).flags.own

variable {cfg}

/-- The engine's mark of a descriptor changes with a take and with a return, and with nothing else. -/
theorem Moved.own (hm : Moved cfg w c u) {i : ℕ} (hi : i < cfg.rxDescriptors) :
    (u.desc i).flags.own=(w.desc i).flags.own ∧ (c.isTake && u.io.status==.ok && u.io.index==i)=false ∨
    (w.desc i).flags.own ∧ (u.desc i).flags.own=false ∧ (c.isTake && u.io.status==.ok && u.io.index==i) ∨
    (w.desc i).flags.own=false ∧ (u.desc i).flags.own ∧ u.releases=w.releases+1 ∧ c.isTake=false := by
  have hid := h.own i hi
  cases hm with
  | refused c io n hst hn => exact .inl ⟨rfl,by simp [hst]⟩
  | total io hio => exact .inl ⟨rfl,rfl⟩
  | take len frame k hk ho d hd io hio head =>
    by_cases hik : i=k
    · subst hik
      refine .inr (.inl ⟨ho,?_,?_⟩)
      · simp [hd.1]
      · simp [RxCall.isTake,hio.1,hio.2.1]
    · refine .inl ⟨by simp [hik],?_⟩
      have hne : k≠i := fun he => hik he.symm
      simp [hio.2.1,hne]
  | post k hk hh hp io hio =>
    refine .inl ⟨?_,rfl⟩
    by_cases hik : i=k <;> simp [hik]
  | postBack k hk hh hp io hio =>
    by_cases hik : i=k
    · subst hik
      refine .inr (.inr ⟨?_,by simp [Flags.engine],rfl,rfl⟩)
      rw [hid]
      simp [RxDesc.idle,hh]
    · exact .inl ⟨by simp [hik],rfl⟩
  | pin k hk hot hr io hio =>
    refine .inl ⟨?_,rfl⟩
    by_cases hik : i=k <;> simp [hik]
  | unpin k hk hp hkp io hio =>
    refine .inl ⟨?_,rfl⟩
    by_cases hik : i=k <;> simp [hik]
  | unpinBack k hk hp hl hh io hio =>
    by_cases hik : i=k
    · subst hik
      refine .inr (.inr ⟨?_,by simp [Flags.engine],rfl,rfl⟩)
      rw [hid]
      unfold RxDesc.idle
      rw [beq_eq_false_iff_ne.2 hp,Bool.and_false]
    · exact .inl ⟨by simp [hik],rfl⟩

/-- A take of a descriptor is its mark going, a return is its mark coming back. -/
theorem takes_givesBack (c : RxCall) {i : ℕ} (hi : i < cfg.rxDescriptors) :
    takes cfg i w c=((w.desc i).flags.own && !((rxStep cfg w c).desc i).flags.own) ∧
      givesBack cfg i w c=(!(w.desc i).flags.own && ((rxStep cfg w c).desc i).flags.own) := by
  unfold takes givesBack
  rcases (rxStep_moved cfg w c).own h hi with ⟨hs,hno⟩|⟨hw,hu,ht⟩|⟨hw,hu,hr,hno⟩
  · rw [hs,hno]
    simp
  · rw [hw,hu,ht]
    simp
  · rw [hw,hu,hr,hno]
    simp

omit h in
theorem Moved.rest (hm : Moved cfg w c u) : ∃ k,∀ j,j≠k → u.desc j=w.desc j := by
  cases hm with
  | refused c io n hst hn => exact ⟨0,fun _ _ => rfl⟩
  | total io hio => exact ⟨0,fun _ _ => rfl⟩
  | take len frame k hk ho d hd io hio head => exact ⟨k,fun j hj => update_of_ne hj _ _⟩
  | post k hk hh hp io hio => exact ⟨k,fun j hj => update_of_ne hj _ _⟩
  | postBack k hk hh hp io hio => exact ⟨k,fun j hj => update_of_ne hj _ _⟩
  | pin k hk hot hr io hio => exact ⟨k,fun j hj => update_of_ne hj _ _⟩
  | unpin k hk hp hkp io hio => exact ⟨k,fun j hj => update_of_ne hj _ _⟩
  | unpinBack k hk hp hl hh io hio => exact ⟨k,fun j hj => update_of_ne hj _ _⟩

omit h in
theorem givesBack_unique {i j : ℕ} (hi : givesBack cfg i w c) (hj : givesBack cfg j w c) : i=j := by
  obtain ⟨k,hk⟩ := (rxStep_moved cfg w c).rest
  have hr : ∀ i,givesBack cfg i w c → i=k := by
    intro i hi
    by_contra hne
    simp only [givesBack,hk i hne,Bool.and_eq_true,Bool.not_eq_true'] at hi
    rw [hi.1.2] at hi
    cases hi.2
  exact (hr i hi).trans (hr j hj).symm

/-- The driver is asked to release for a descriptor that goes back, or for a frame longer than a buffer. -/
theorem Moved.released (hm : Moved cfg w c u) : u.releases=w.releases ∨ u.releases=w.releases+1 ∧
      ((∃ i < cfg.rxDescriptors,(w.desc i).flags.own=false ∧ (u.desc i).flags.own) ∨
        ∃ len addr,c=.take len (some addr) ∧ cfg.dmaFrameMax<len) := by
  cases hm with
  | refused c io n hst hn => exact hn.imp_right fun hn => ⟨hn.1,.inr hn.2⟩
  | total io hio => exact .inl rfl
  | take len frame k hk ho d hd io hio head => exact .inl rfl
  | post k hk hh hp io hio => exact .inl rfl
  | postBack k hk hh hp io hio =>
    refine .inr ⟨rfl,.inl ⟨k,hk,?_,by simp [Flags.engine]⟩⟩
    rw [h.own k hk]
    simp [RxDesc.idle,hh]
  | pin k hk hot hr io hio => exact .inl rfl
  | unpin k hk hp hkp io hio => exact .inl rfl
  | unpinBack k hk hp hl hh io hio =>
    refine .inr ⟨rfl,.inl ⟨k,hk,?_,by simp [Flags.engine]⟩⟩
    rw [h.own k hk]
    unfold RxDesc.idle
    rw [beq_eq_false_iff_ne.2 hp,Bool.and_false]

omit h in
theorem Moved.pinned (hm : Moved cfg w c u) (hok : u.io.status=.ok) : u.io.pinned=u.pinned := by
  cases hm with
  | refused c io n hst hn => exact absurd hok hst
  | total io hio => exact hio
  | take len frame k hk ho d hd io hio head => exact hio.2.2
  | post k hk hh hp io hio => exact hio
  | postBack k hk hh hp io hio => exact hio
  | pin k hk hot hr io hio => exact hio
  | unpin k hk hp hkp io hio => exact hio
  | unpinBack k hk hp hl hh io hio => exact hio

theorem run_takes {i : ℕ} (hi : i < cfg.rxDescriptors) (calls : List RxCall) :
    (!((run (rxStep cfg) w calls).desc i).flags.own).toNat+ total (rxStep cfg) (fun w c => (givesBack cfg i w c).toNat) w calls=
      (!(w.desc i).flags.own).toNat+total (rxStep cfg) (fun w c => (takes cfg i w c).toNat) w calls := by
  have hk : ∀ (w : Rx) (c : RxCall),RingOk cfg w → RingOk cfg (rxStep cfg w c) := fun w c hw => hw.moved (rxStep_moved cfg w c)
  have hs : ∀ (w : Rx) (c : RxCall),RingOk cfg w → (!((rxStep cfg w c).desc i).flags.own).toNat+(givesBack cfg i w c).toNat=
        (!(w.desc i).flags.own).toNat+(takes cfg i w c).toNat := by
    intro w c hw
    obtain ⟨ht,hg⟩ := takes_givesBack hw c hi
    rw [ht,hg]
    cases (w.desc i).flags.own <;> cases ((rxStep cfg w c).desc i).flags.own <;> rfl
  exact run_ledger (fun w => (!(w.desc i).flags.own).toNat) hk hs h calls

omit h

variable (cfg)

/-- What a reader of the ring finds after any calls. -/
structure Accounted (u : Rx) : Prop where
  /-- Every descriptor is in exactly one situation. -/
  situation : ∀ i < cfg.rxDescriptors,∃! x,(u.desc i).In x
  /-- The total is the sum of the pins, and within its bound. -/
  total : u.pinned.toNat=u.sum cfg ∧ u.sum cfg ≤ cfg.maxPinnedFrames
  /-- A call that reports OK reports the total it leaves. -/
  reported : ∀ c,(rxStep cfg u c).io.status=.ok → (rxStep cfg u c).io.pinned.toNat=(rxStep cfg u c).sum cfg
  /-- A descriptor goes back at the call that leaves it neither held nor pinned, and at no other. -/
  back : ∀ c,∀ i < cfg.rxDescriptors,givesBack cfg i u c ↔ (u.desc i).idle=false ∧ ((rxStep cfg u c).desc i).idle
  /-- One release of the driver goes with one descriptor, or with a frame longer than a buffer. -/
  released : ∀ c,(∀ i j,givesBack cfg i u c → givesBack cfg j u c → i=j) ∧
    ((rxStep cfg u c).releases=u.releases ∨ (rxStep cfg u c).releases=u.releases+1 ∧
      ((∃ i < cfg.rxDescriptors,givesBack cfg i u c) ∨ ∃ len addr,c=.take len (some addr) ∧ cfg.dmaFrameMax<len))
  /-- Between two takes of a descriptor with none in between it goes back exactly once. -/
  once : ∀ i < cfg.rxDescriptors,∀ c mid d,takes cfg i u c →
    Along (rxStep cfg) (fun w c => takes cfg i w c=false) (rxStep cfg u c) mid →
    takes cfg i (run (rxStep cfg) (rxStep cfg u c) mid) d →
    StepRun.total (rxStep cfg) (fun w c => (givesBack cfg i w c).toNat) (rxStep cfg u c) mid=1

variable {cfg}

theorem RingOk.accounted (h : RingOk cfg u) : Accounted cfg u := by
  have hs : ∀ c,RingOk cfg (rxStep cfg u c) := fun c => h.moved (rxStep_moved cfg u c)
  refine ⟨fun i hi => RxDesc.situation (h.own i hi),⟨h.total,h.total ▸ h.bound⟩,fun c hok => ?_,fun c i hi => ?_,
    fun c => ⟨fun i j => givesBack_unique,?_⟩,fun i hi c mid d hc hm hd => ?_⟩
  · rw [(rxStep_moved cfg u c).pinned hok]
    exact (hs c).total
  · rw [(takes_givesBack h c hi).2,h.own i hi,(hs c).own i hi,Bool.and_eq_true,Bool.not_eq_true']
  · refine ((rxStep_moved cfg u c).released h).imp_right fun ⟨hr,hwh⟩ => ⟨hr,hwh.imp_left ?_⟩
    rintro ⟨i,hi,hw,hu⟩
    exact ⟨i,hi,by rw [(takes_givesBack h c hi).2,hw,hu]; rfl⟩
  · have hrn : RingOk cfg (run (rxStep cfg) (rxStep cfg u c) mid) :=
      run_always (fun w c hw => hw.moved (rxStep_moved cfg w c)) (hs c)
    have hb := run_takes (hs c) hi mid
    have hcn : (fun w c => takes cfg i w c=false)=fun w c => (takes cfg i w c).toNat=0 := by
      funext w c
      cases takes cfg i w c <;> simp
    have hn : StepRun.total (rxStep cfg) (fun w c => (takes cfg i w c).toNat) (rxStep cfg u c) mid=0 := by
      rw [total_eq_zero_iff,←hcn]
      exact hm
    rw [(takes_givesBack h c hi).1] at hc
    rw [(takes_givesBack hrn d hi).1] at hd
    simp only [Bool.and_eq_true,Bool.not_eq_true'] at hc hd
    rw [hn,hc.2,hd.1] at hb
    simpa using hb

/-- Whatever is called after a successful `bind`, and whatever frames the driver offers, the ring is accounted for. -/
theorem run_accounted (cfg : Config) (w : Rx) (a : BindArgs) (hbind : (bind cfg w a).io.status=.ok) (calls : List RxCall) :
    Accounted cfg (run (rxStep cfg) (bind cfg w a) calls) := by
  have hrun : RingOk cfg (run (rxStep cfg) (bind cfg w a) calls) :=
    run_always (fun w c hw => hw.moved (rxStep_moved cfg w c)) (bind_ringOk hbind)
  exact hrun.accounted

/-- A driver with every hook, and a buffer on a cache line for each ring. -/
def driven : BindArgs := ⟨some ⟨true,true,true,true,true,true⟩,some 0,some 0⟩

/-- A frame taken, pinned, posted and unpinned. -/
theorem run_accounted_driven :
    let w := clear ⟨false,false,0,0,fun _ => ⟨none,0,.none,0⟩,⟨.err,none,0,.none,0,0,0⟩,0⟩
    let u := run (rxStep .shipped) (bind .shipped w driven) [.take 60 (some 0),.pin 0,.post 0,.unpin 0]
    (bind .shipped w driven).io.status=.ok ∧ u.releases=1 ∧ Accounted .shipped u :=
  ⟨by decide,by decide,run_accounted .shipped _ driven (by decide) _⟩

/-- The pins and owners of the ring, as the units above see them. -/
def Rx.ring (w : Rx) : Ring :=
  ⟨w.ready,w.drv,w.pinned.toNat,fun i => ⟨(w.desc i).pins.toNat,(w.desc i).flags.held,(w.desc i).flags.own⟩⟩

theorem Rx.ring_changed {i : ℕ} (hr : u.ready=w.ready) (hd : u.drv=w.drv) (hn : u.pinned.toNat=n)
    (hu : u.desc=update w.desc i d) : u.ring={w.ring with
      pinned := n
      desc := update w.ring.desc i ⟨d.pins.toNat,d.flags.held,d.flags.own⟩} := by
  have hds : u.ring.desc=update w.ring.desc i ⟨d.pins.toNat,d.flags.held,d.flags.own⟩ := by
    funext j
    show (⟨(u.desc j).pins.toNat,(u.desc j).flags.held,(u.desc j).flags.own⟩ : Desc)=_
    rw [hu]
    by_cases hj : j=i
    · rw [hj,update_self,update_self]
    · rw [update_of_ne hj,update_of_ne hj]
      rfl
  rw [←hds]
  unfold Rx.ring
  rw [hr,hd,hn]

theorem toNat_beq_zero (x : BitVec n) : (x.toNat==0)=(x==0) := by
  rw [Bool.eq_iff_iff,beq_iff_eq,beq_iff_eq]
  exact ⟨fun h => BitVec.eq_of_toNat_eq (by simpa using h),fun h => by simp [h]⟩

theorem pin_ring (h : RingOk cfg w) (i : ℕ) :
    (w.pin cfg i).ring=(Dma.pin cfg w.ring i).1 ∧ (w.pin cfg i).io.status=(Dma.pin cfg w.ring i).2 := by
  have hrc : w.ring.usable cfg i=w.reaches cfg i := rfl
  have hp : ((w.ring.desc i).pins==0)=((w.desc i).pins==0) := toNat_beq_zero (w.desc i).pins
  have hh : (w.ring.desc i).held=(w.desc i).flags.held := rfl
  have ht : w.ring.pinned=w.pinned.toNat := rfl
  unfold Rx.pin Dma.pin
  rw [hrc,hh,hp,ht]
  split_ifs with hr hi hrm
  · exact ⟨rfl,rfl⟩
  · exact ⟨rfl,rfl⟩
  · exact ⟨rfl,rfl⟩
  obtain ⟨ho,htt⟩ := h.pinned_succ (reaches_lt cfg w (by simpa using hr)) (Nat.lt_of_not_le hrm)
  refine ⟨Eq.trans (Rx.ring_changed (w := w) rfl rfl htt rfl) ?_,rfl⟩
  rw [ho]
  rfl

theorem unpin_ring (h : RingOk cfg w) (i : ℕ) :
    (w.unpin cfg i).ring=(Dma.unpin cfg w.ring i).1 ∧ (w.unpin cfg i).io.status=(Dma.unpin cfg w.ring i).2 := by
  have hrc : w.ring.usable cfg i=w.reaches cfg i := rfl
  have hbq : ((w.ring.desc i).pins==0)=((w.desc i).pins==0) := toNat_beq_zero (w.desc i).pins
  have hz : (w.ring.desc i).pins=0 ↔ (w.desc i).pins=0 := by
    rwa [Bool.eq_iff_iff,beq_iff_eq,beq_iff_eq] at hbq
  unfold Dma.unpin
  rw [hrc]
  by_cases hno : (!w.reaches cfg i)
  · rw [if_pos hno,Rx.unpin,if_pos hno]
    exact ⟨rfl,rfl⟩
  rw [if_neg hno]
  by_cases hp : (w.desc i).pins=0
  · rw [if_pos (hz.2 hp),Rx.unpin,if_neg hno,if_pos hp]
    exact ⟨rfl,rfl⟩
  rw [if_neg (hz.not.2 hp)]
  have hi := reaches_lt cfg w (by simpa using hno)
  obtain ⟨ho,hps⟩ := toNat_sub_one hp
  have ht : (w.pinned-1).toNat=w.pinned.toNat-1 := by
    have hun := (h.unpinned hi hp).1
    omega
  have hok : (w.unpin cfg i).io.status=.ok := by
    rw [Rx.unpin,if_neg hno,if_neg hp]
    rfl
  have hm := unpin_moved cfg w i
  refine ⟨?_,hok⟩
  generalize w.unpin cfg i=u at hm hok ⊢
  have hr : ∀ d',u.ring={w.ring with pinned := w.pinned.toNat-1,desc := update w.ring.desc i d'} →
      (w.ring.desc i).unpinned=d' → u.ring={w.ring with
        pinned := w.ring.pinned-1
        desc := update w.ring.desc i (w.ring.desc i).unpinned} := by
    rintro _ hu rfl
    exact hu
  cases hm with
  | refused c io n hst hn => exact absurd hok hst
  | unpin i hi hp hk io hio =>
    refine hr _ (Rx.ring_changed (w := w) rfl rfl ht rfl) ?_
    unfold Desc.unpinned
    rw [if_neg fun hb => ?_,ho]
    · rfl
    · rcases hk with hne|hh
      · exact hne (BitVec.eq_of_toNat_eq (ho.trans hb.1))
      · cases hb.2.symm.trans hh
  | unpinBack i hi hp hl hh io hio =>
    refine hr _ (Rx.ring_changed (w := w) rfl rfl ht rfl) ?_
    unfold Desc.unpinned
    rw [if_pos ⟨ho.symm.trans (congrArg BitVec.toNat hl),hh⟩,ho]
    rfl

/-- In every state calls lead to, `pin` and `unpin` do to the ring, and report, what the abstraction does. -/
theorem run_refines (cfg : Config) (w : Rx) (a : BindArgs) (hbind : (bind cfg w a).io.status=.ok) (calls : List RxCall) (i : ℕ) :
    let u := run (rxStep cfg) (bind cfg w a) calls
    ((u.pin cfg i).ring=(pin cfg u.ring i).1 ∧ (u.pin cfg i).io.status=(pin cfg u.ring i).2) ∧
      (u.unpin cfg i).ring=(unpin cfg u.ring i).1 ∧ (u.unpin cfg i).io.status=(unpin cfg u.ring i).2 := by
  have hrun : RingOk cfg (run (rxStep cfg) (bind cfg w a) calls) :=
    run_always (fun w c hw => hw.moved (rxStep_moved cfg w c)) (bind_ringOk hbind)
  exact ⟨pin_ring hrun i,unpin_ring hrun i⟩

/-- The frame that was taken is pinned again, and so is its abstraction. -/
theorem run_refines_taken :
    let w := clear ⟨false,false,0,0,fun _ => ⟨none,0,.none,0⟩,⟨.err,none,0,.none,0,0,0⟩,0⟩
    let u := run (rxStep .shipped) (bind .shipped w driven) [.take 60 (some 0),.pin 0]
    (bind .shipped w driven).io.status=.ok ∧ (u.pin .shipped 0).ring=(pin .shipped u.ring 0).1 ∧
      ((u.pin .shipped 0).desc 0).pins=2 :=
  ⟨by decide,(run_refines .shipped _ driven (by decide) _ 0).1.1,by decide⟩

end Runs

end Driver

end IdemIp.Dma
