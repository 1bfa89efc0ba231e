import IdemIp.IndexChain
import IdemIp.IpHeaders
import IdemIp.Pieces

/-!
# IPv4 reassembly, `ip4_reass.c`

Fragments stay in the frames they arrived in; a row keeps the list of them in offset
order and RFC 815's list of holes. Unlike the IPv6 unit this one deletes every hole
a fragment reaches and puts back up to two pieces of it.
-/

namespace IdemIp.Ip4Reass

section Unit

open IndexChain

/-- State of a row, a fragment or a hole, `IdemIpIp4ReassState`. -/
inductive State
  | free | holding | complete | abandoned | reclaim
deriving DecidableEq

/-- One datagram, `Ip4ReassDatagram`. -/
structure Datagram where
  (src dst deadlineMs : BitVec 32)
  id : BitVec 16
  /-- Octets of the datagram's data, zero until the last fragment came. -/
  totalLen : ℕ
  proto : BitVec 8
  (fragHead holeHead firstFrag cursor : ℕ)
  state : State

/-- One held fragment, `Ip4ReassFrag`. -/
structure Frag where
  (desc off len hdrLen next : ℕ)
  state : State

/-- One hole, `Ip4ReassHole`. -/
structure Hole where
  (first last next : ℕ)
  state : State

/-- Result members of the operand block, `Ip4ReassIo`. -/
structure Io where
  status : Status
  complete : Bool
  (totalLen index : ℕ)
  state : State
  (off desc len hdrLen : ℕ)
  /-- Source of a datagram that timed out. -/
  src : BitVec 32
  fragZero : Bool

/-- The unit's borrow. -/
structure Work where
  /-- Whether `clear` has marked it. -/
  ready : Bool
  held : ℕ
  row : ℕ → Datagram
  frag : ℕ → Frag
  hole : ℕ → Hole
  io : Io

variable (w : Work) (i : ℕ)

def Work.setRow (d : Datagram) : Work := {w with row := Function.update w.row i d}

def Work.setFrag (f : Frag) : Work := {w with frag := Function.update w.frag i f}

def Work.setHole (h : Hole) : Work := {w with hole := Function.update w.hole i h}

def Work.status (w : Work) (s : Status) : Work := {w with io := {w.io with status := s}}

/-- Zero the tables and the results' outcome, `idemip_ip4_reass_clear`. -/
def clear : Work :=
  ⟨true,0,fun _ => ⟨0,0,0,0,0,0,0,0,0,0,.free⟩,fun _ => ⟨0,0,0,0,0,.free⟩,fun _ => ⟨0,0,0,.free⟩,{w.io with status := .ok}⟩

def Work.fragNext : ℕ := (w.frag i).next

def Work.holeNext : ℕ := (w.hole i).next

variable (cfg : Config) (w : Work) (i : ℕ)

/-- Fragments of a row in list order. -/
def Work.frags : List ℕ :=
  walk w.fragNext cfg.ip4ReassFrags cfg.ip4ReassFrags (w.row i).fragHead

/-- Holes of a row in list order. -/
def Work.holes : List ℕ :=
  walk w.holeNext cfg.ip4ReassHoles cfg.ip4ReassHoles (w.row i).holeHead

/-- Whether a deadline has passed, `ip4_reass_reached`. -/
def reached (nowMs deadlineMs : BitVec 32) : Bool := nowMs-deadlineMs<0x80000000

/-- Whether a row carries a buffer identifier. -/
def Datagram.named (d : Datagram) (h : Octets) : Bool :=
  d.src==Ip4.src h && d.dst==Ip4.dst h && d.proto==Ip4.proto h && d.id==Ip4.ident h

/-- Row a fragment belongs to, `ip4_reass_find`. -/
def find (h : Octets) : Option ℕ :=
  firstIndex cfg.ip4ReassDatagrams fun i =>
    ((w.row i).state==.holding || (w.row i).state==.abandoned) && (w.row i).named h

/-- A row just taken; its key and its deadline are those of its last use. -/
def Datagram.taken (d : Datagram) : Datagram :=
  {d with
    state := .holding
    fragHead := none8
    holeHead := none8
    firstFrag := none8
    cursor := none8
    totalLen := 0}

/-- Take a free row, `ip4_reass_row_alloc`. -/
def rowAlloc : Option (Work×ℕ) :=
  (firstIndex cfg.ip4ReassDatagrams fun i => (w.row i).state==.free).map fun i =>
    (w.setRow i (w.row i).taken,i)

/-- Take a free fragment, `ip4_reass_frag_alloc`. -/
def fragAlloc : Option (Work×ℕ) :=
  (firstIndex cfg.ip4ReassFrags fun i => (w.frag i).state==.free).map fun i =>
    (w.setFrag i {w.frag i with state := .holding,next := none8},i)

/-- Take a free hole, `ip4_reass_hole_alloc`. -/
def holeAlloc (first last : ℕ) : Option (Work×ℕ) :=
  (firstIndex cfg.ip4ReassHoles fun i => (w.hole i).state==.free).map fun i =>
    (w.setHole i ⟨first%2^16,last%2^16,none8,.holding⟩,i)

def Hole.freed (h : Hole) : Hole := {h with state := .free,next := none8}

/-- Give back every hole of a row, `ip4_reass_free_holes`. -/
def freeHoles : Work :=
  let gone := w.holes cfg i
  let u := {w with hole := fun j => if j∈gone then (w.hole j).freed else w.hole j}
  u.setRow i {u.row i with holeHead := none8,cursor := none8}

/-- Give a row up; it stays until its descriptors are back, `ip4_reass_flush`. -/
def flush : Work :=
  let u := freeHoles cfg w i
  u.setRow i {u.row i with state := if (u.row i).fragHead=none8 then .free else .reclaim}

/-- Refuse what follows of a datagram, `ip4_reass_abandon`. -/
def abandon : Work :=
  let u := freeHoles cfg w i
  u.setRow i {u.row i with state := .abandoned}

/-- Octets of a span that are missing, `ip4_reass_fills`. -/
def fills (i first last : ℕ) : ℕ :=
  ((w.holes cfg i).map fun j =>
    let lo := max first (w.hole j).first
    let hi := min last (w.hole j).last
    if lo≤hi then hi-lo+1 else 0).sum

/-- Thread a fragment in behind those at or below its offset, `ip4_reass_frag_link`. -/
def fragLink (i f : ℕ) : Work :=
  let place := seek w.fragNext cfg.ip4ReassFrags (fun j => decide ((w.frag f).off<(w.frag j).off))
    cfg.ip4ReassFrags none8 (w.row i).fragHead
  let u := w.setFrag f {w.frag f with next := place.2}
  if place.1=none8 then u.setRow i {u.row i with fragHead := f}
  else u.setFrag place.1 {u.frag place.1 with next := f}

/-- One past the last octet held, `ip4_reass_end`. -/
def endOf : ℕ := ((w.frags cfg i).map fun f => (w.frag f).off+(w.frag f).len).foldl max 0

/-- Point a hole, or the row, at another hole, `ip4_reass_hole_thread`. -/
def holeThread (i at_ dest : ℕ) : Work :=
  if at_=none8 then w.setRow i {w.row i with holeHead := dest}
  else w.setHole at_ {w.hole at_ with next := dest}

/-- Put a piece of a deleted hole behind a hole of the row. -/
def holePiece (i behind next first last : ℕ) : Option (Work×ℕ) :=
  (holeAlloc cfg w first last).map fun r =>
    (holeThread (r.1.setHole r.2 {r.1.hole r.2 with next := next}) i behind r.2,r.2)

/-- Delete one hole and put back what the span leaves of it, RFC 815 steps 4 to 6. -/
def holeCut (i prev h first last : ℕ) (mf : Bool) : Work×Option ℕ :=
  let hole := w.hole h
  let w := w.setHole h hole.freed
  let head := if hole.first<first then (holePiece cfg w i prev hole.next hole.first (first-1)).map some else some none
  match head with
  | none => (holeThread w i prev hole.next,none)
  | some piece =>
    let w := (piece.map Prod.fst).getD w
    let tail := (piece.map Prod.snd).getD prev
    if last<hole.last ∧ mf=true then
      match holePiece cfg w i tail hole.next (last+1) hole.last with
      | none => (if piece.isNone then holeThread w i prev hole.next else w,none)
      | some r => (r.1,some r.2)
    else (if piece.isNone then holeThread w i prev hole.next else w,some tail)

/-- The hole loop of `ip4_reass_holes`; false when the table ran out of holes. -/
def holeLoop (i first last : ℕ) (mf : Bool) : ℕ → Work → ℕ → ℕ → Work×Bool
  | 0,w,_,_ => (w,true)
  | fuel+1,w,prev,h =>
    if h=none8 then (w,true)
    else if (w.hole h).last<first ∨ last<(w.hole h).first then
      holeLoop i first last mf fuel w h (w.hole h).next
    else
      let r := holeCut cfg w i prev h first last mf
      match r.2 with
      | none => (r.1,false)
      | some tail => holeLoop i first last mf fuel r.1 tail (w.hole h).next

/-- Take a span out of a row's holes, `ip4_reass_holes`. -/
def fillHoles (i first last : ℕ) (mf : Bool) : Work×Bool :=
  holeLoop cfg i first last mf (cfg.ip4ReassHoles+1) w none8 (w.row i).holeHead

/-- Give up every row with a buffer identifier, `ip4_reass_flush_bufid`. -/
def flushBufid (h : Octets) : Work×Option ℕ :=
  let hit := fun i => (w.row i).state != .free && (w.row i).state != .reclaim && (w.row i).named h
  (((List.range cfg.ip4ReassDatagrams).filter hit).foldl (flush cfg) w,firstIndex cfg.ip4ReassDatagrams hit)

/-- Operands of `hold`, `Ip4ReassHoldArgs`. -/
structure HoldArgs where
  hdr : Octets
  (desc len : ℕ)
  nowMs : BitVec 32

variable (a : HoldArgs)

/-- Name a fresh row after the fragment that opened it. -/
def Datagram.opened (d : Datagram) (a : HoldArgs) (hole : ℕ) : Datagram :=
  {d with
    holeHead := hole
    src := Ip4.src a.hdr
    dst := Ip4.dst a.hdr
    proto := Ip4.proto a.hdr
    id := Ip4.ident a.hdr
    deadlineMs := a.nowMs+cfg.ipReassMaxageMs}

/-- The row a fragment belongs to and whether it was opened for it; none when a table is full. -/
def rowFor : Work×Option (ℕ×Bool) :=
  match find cfg w a.hdr with
  | some i => (w,some (i,false))
  | none =>
    match rowAlloc cfg w with
    | none => (w,none)
    | some (u,i) =>
      -- One hole over everything; without a descriptor for it the row goes back.
      match holeAlloc cfg u 0 0xFFFF with
      | none => (u.setRow i {u.row i with state := .free},none)
      | some (v,h) => (v.setRow i ((v.row i).opened cfg a h),some (i,true))

/-- Report a row and its state with the outcome the call opened with. -/
def Work.reportRow : Work := {w with io := {w.io with index := i,state := (w.row i).state}}

/-- Link a fragment whose octets were all missing, and complete the row when no hole is left. -/
def fileFrag (i f : ℕ) (a : HoldArgs) (off dataLen hdrLen : ℕ) (mf : Bool) : Work :=
  let w := w.setFrag f {w.frag f with desc := a.desc,off := off,len := dataLen,hdrLen := hdrLen}
  let w := fragLink cfg w i f
  let w := {w with held := w.held+1}
  let w := if mf then w else w.setRow i {w.row i with totalLen := off+dataLen}
  let w := if off=0 then w.setRow i {w.row i with firstFrag := f} else w
  let full := decide ((w.row i).holeHead=none8 ∧ (w.row i).firstFrag≠none8)
  let w := if full then w.setRow i {w.row i with state := .complete,cursor := (w.row i).fragHead} else w
  {w with io := {w.io with
    complete := full
    index := i
    state := (w.row i).state
    totalLen := (w.row i).totalLen
    status := .ok}}

/-- Octets of data behind a header. -/
def dataLen (h : Octets) : ℕ := Ip4.totalLen h-Ip4.hdrLen h

/-- Whether a fragment disagrees with the length its row knows, or cuts below what the row holds. -/
def misfits (i fragEnd : ℕ) (mf : Bool) : Bool :=
  (w.row i).totalLen != 0 && decide ((w.row i).totalLen<fragEnd) ||
    !mf && (w.row i).totalLen != 0 && fragEnd != (w.row i).totalLen ||
    !mf && decide (fragEnd<endOf cfg w i)

/-- Hold a fragment of a row that takes it. -/
def takeInto (opened : Bool) (a : HoldArgs) : Work :=
  let off := Ip4.fragOffsetBytes a.hdr
  let len := dataLen a.hdr
  let mf := Ip4.mf a.hdr
  match fragAlloc cfg w with
  | none => (if opened then flush cfg w i else w).status .busy
  | some (u,f) =>
    let r := fillHoles cfg u i off (off+len-1) mf
    if !r.2 then (flush cfg (r.1.setFrag f {r.1.frag f with state := .free}) i).status .busy
    else fileFrag cfg r.1 i f a off len (Ip4.hdrLen a.hdr) mf

/-- Judge a fragment against its row. -/
def takeRow (opened : Bool) (a : HoldArgs) : Work :=
  let off := Ip4.fragOffsetBytes a.hdr
  let len := dataLen a.hdr
  if (w.row i).state=.abandoned then w.reportRow i
  else if misfits cfg w i (off+len) (Ip4.mf a.hdr) then if opened then flush cfg w i else w
  else
    let filled := fills cfg w i off (off+len-1)
    if filled=0 then w.reportRow i
    else if filled≠len then (abandon cfg w i).reportRow i
    else takeInto cfg w i opened a

/-- Judge a fragment by itself and find its row, `ip4_reass_take`. -/
def take : Work :=
  let off := Ip4.fragOffsetBytes a.hdr
  let len := dataLen a.hdr
  let mf := Ip4.mf a.hdr
  if !Ip4.verify a.hdr a.len then w
  else if off=0 ∧ mf=false then
    let r := flushBufid cfg w a.hdr
    match r.2 with
    | none => r.1
    | some i => r.1.reportRow i
  else if len=0 ∨ mf=true ∧ len%8≠0 then w
  else if 65535<off+len+Ip4.hdrLen a.hdr then w
  else if cfg.ip4ReassFrags≤w.held then w.status .busy
  else
    let r := rowFor cfg w a
    match r.2 with
    | none => r.1.status .busy
    | some (i,opened) => takeRow cfg r.1 i opened a

/-- Hold a fragment, `idemip_ip4_reass_hold`. -/
def hold : Work :=
  let u := {w with io := {w.io with
    status := .err
    complete := false
    totalLen := 0
    index := none8
    state := .free}}
  if !w.ready then u else take cfg u a

/-- Report the next fragment of a complete row; after the last one the walk starts over, `ip4_reass_report`. -/
def report : Work :=
  let u := w.reportRow i
  match (w.row i).state with
  | .holding => u.status .busy
  | .complete =>
    if (w.row i).cursor=none8 then (u.setRow i {w.row i with cursor := (w.row i).fragHead}).status .busy
    else
      let held := w.frag (w.row i).cursor
      let v := u.setRow i {w.row i with cursor := held.next}
      {v with io := {v.io with off := held.off,len := held.len,desc := held.desc,hdrLen := held.hdrLen,status := .ok}}
  | _ => u

/-- Walk the fragments of a complete datagram, `idemip_ip4_reass_next`. -/
def next : Work :=
  let u := {w with io := {w.io with
    status := .err
    off := 0
    len := 0
    desc := 0
    hdrLen := 0
    index := none8
    state := .free}}
  if !w.ready || cfg.ip4ReassDatagrams ≤ i then u else report u i

/-- Give a datagram up, `idemip_ip4_reass_release`. -/
def release : Work :=
  let u := {w with io := {w.io with status := .err,index := none8,state := .free}}
  if !w.ready || cfg.ip4ReassDatagrams ≤ i then u
  else match (w.row i).state with
    | .free | .reclaim => u
    | _ => ((flush cfg u i).reportRow i).status .ok

def Frag.freed (f : Frag) : Frag := {f with state := .free,next := none8}

/-- A row whose first fragment was handed back; with its last one gone it is free. -/
def Datagram.popped (d : Datagram) (next : ℕ) : Datagram :=
  if next=none8 then {d with fragHead := next,state := .free,firstFrag := none8,totalLen := 0}
  else {d with fragHead := next}

/-- Hand one descriptor of a released row back, `idemip_ip4_reass_reclaim`. -/
def reclaim : Work :=
  let u := {w with io := {w.io with status := .err,desc := 0,len := 0,index := none8}}
  if !w.ready then u
  else match firstIndex cfg.ip4ReassDatagrams fun i =>
      (w.row i).state==.reclaim && (w.row i).fragHead != none8 with
    | none => u.status .busy
    | some i =>
      let f := (w.row i).fragHead
      let v := (u.setRow i ((w.row i).popped (w.frag f).next)).setFrag f (w.frag f).freed
      {v with
        held := v.held-1
        io := {v.io with desc := (w.frag f).desc,len := (w.frag f).len,index := i,status := .ok}}

/-- Give up the first row past its deadline, `idemip_ip4_reass_tick`. -/
def tick (nowMs : BitVec 32) : Work :=
  let u := {w with io := {w.io with status := .err,index := none8,state := .free,src := 0,fragZero := false}}
  if !w.ready then u
  else match firstIndex cfg.ip4ReassDatagrams fun i =>
      ((w.row i).state==.holding || (w.row i).state==.complete || (w.row i).state==.abandoned) &&
        reached nowMs (w.row i).deadlineMs with
    | none => u.status .busy
    | some i =>
      let live := (w.row i).state != .abandoned
      let v := flush cfg u i
      {v with io := {v.io with
        src := if live then (w.row i).src else 0
        fragZero := live && (w.row i).firstFrag != none8
        state := (v.row i).state
        index := i
        status := .ok}}

end Unit

section Holes

open IndexChain Slots Gaps List Work Function

/-- The span a hole describes. -/
def Work.gap (w : Work) (h : ℕ) : Gap := ⟨(w.hole h).first,(w.hole h).last⟩

def Work.gaps (w : Work) (l : List ℕ) : List Gap := l.map w.gap

variable (cfg : Config)

/-- Every row that is not free lists its holes, so many in all, and no hole is on two lists. -/
abbrev HolesBy (w : Work) (n : ℕ) (hs : ℕ → List ℕ) : Prop :=
  Threaded cfg.ip4ReassDatagrams cfg.ip4ReassHoles none8 (fun i => (w.hole i).state != .free) n w.holeNext
    (fun d => (w.row d).holeHead) (fun d => (w.row d).state != .free) hs

/-- The unit does not count its holes. -/
abbrev HolesOk (w : Work) (hs : ℕ → List ℕ) : Prop := HolesBy cfg w (flat cfg.ip4ReassDatagrams hs).length hs

/-- Only the hole table has changed, and where the list of one row begins. -/
def Rethreaded (d : ℕ) (w u : Work) : Prop :=
  ∃ hole head,u={w with hole := hole,row := update w.row d {w.row d with holeHead := head}}

section Rethreaded

variable {d : ℕ} {w u v : Work}

theorem Rethreaded.refl (d : ℕ) (w : Work) : Rethreaded d w w :=
  ⟨w.hole,(w.row d).holeHead,by rw [update_eq_self]⟩

theorem Rethreaded.trans (h : Rethreaded d w u) (h' : Rethreaded d u v) : Rethreaded d w v := by
  obtain ⟨hole,head,rfl⟩ := h
  obtain ⟨hole',head',rfl⟩ := h'
  refine ⟨hole',head',?_⟩
  simp only [update_self,update_idem]

theorem Rethreaded.setHole (d : ℕ) (w : Work) (i : ℕ) (x : Hole) : Rethreaded d w (w.setHole i x) :=
  ⟨update w.hole i x,(w.row d).holeHead,by rw [update_eq_self]; rfl⟩

theorem Rethreaded.holeThread (d : ℕ) (w : Work) (at_ dest : ℕ) : Rethreaded d w (holeThread w d at_ dest) := by
  unfold Ip4Reass.holeThread
  split_ifs
  · exact ⟨w.hole,dest,rfl⟩
  · exact .setHole d w at_ _

theorem Rethreaded.row_ne (h : Rethreaded d w u) {k : ℕ} (hk : k≠d) : u.row k=w.row k := by
  obtain ⟨hole,head,rfl⟩ := h
  exact update_of_ne hk _ _

theorem Rethreaded.row (h : Rethreaded d w u) : u.row d={w.row d with holeHead := (u.row d).holeHead} := by
  obtain ⟨hole,head,rfl⟩ := h
  simp only [update_self]

theorem Rethreaded.state (h : Rethreaded d w u) (k : ℕ) : (u.row k).state=(w.row k).state := by
  by_cases hk : k=d
  · rw [hk,h.row]
  · rw [h.row_ne hk]

end Rethreaded

section Lists

variable {cfg} {w u : Work} {hs : ℕ → List ℕ} {d : ℕ}

theorem holes_le_none : cfg.ip4ReassHoles≤none8 := cfg.ip4ReassHoles_lt.le

theorem HolesBy.ok {n : ℕ} (h : HolesBy cfg w n hs) : HolesOk cfg w hs := by
  have hn := h.kept.count_eq
  subst hn
  exact h

/-- What one pass has done so far: the list of one row is another, and the holes on no list of it are as they were. -/
structure Worked (cfg : Config) (w u : Work) (hs : ℕ → List ℕ) (d : ℕ) (l : List ℕ) : Prop where
  ok : HolesOk cfg u (update hs d l)
  rest : Rethreaded d w u
  /-- The holes of other rows are as they were. -/
  other : ∀ i,i∉hs d → (w.hole i).state≠.free → u.hole i=w.hole i

theorem Worked.refl (h : HolesOk cfg w hs) (d : ℕ) : Worked cfg w w hs d (hs d) :=
  ⟨by rwa [update_eq_self],.refl d w,fun _ _ _ => rfl⟩

theorem Worked.trans {v : Work} {l m : List ℕ} (hok : HolesOk cfg w hs) (hd : d < cfg.ip4ReassDatagrams)
    (h : Worked cfg w u hs d l) (h' : Worked cfg u v (update hs d l) d m) : Worked cfg w v hs d m := by
  refine ⟨?_,h.rest.trans h'.rest,fun i hi hui => ?_⟩
  · have hm := h'.ok
    rwa [update_idem] at hm
  · have hsm := h.other i hi hui
    refine (h'.other i ?_ (by rw [hsm]; exact hui)).trans hsm
    rw [update_self]
    exact hok.kept.off_list h.ok.kept hd hi (by simpa using hui)

theorem holeThread_hole (at_ dest k : ℕ) :
    (holeThread w d at_ dest).hole k=if k=at_ ∧ at_≠none8 then {w.hole at_ with next := dest} else w.hole k := by
  unfold holeThread
  by_cases hn : at_=none8
  · simp [setRow,hn]
  · by_cases hk : k=at_ <;> simp [setHole,hn,hk]

theorem holeThread_head {at_ dest : ℕ} :
    ((holeThread w d at_ dest).row d).holeHead=if at_=none8 then dest else (w.row d).holeHead := by
  unfold holeThread
  split_ifs <;> simp [setRow,setHole]

/-- The tables once a hole went from its list. -/
def unlinked (w : Work) (d prev h : ℕ) : Work := holeThread (w.setHole h (w.hole h).freed) d prev (w.hole h).next

theorem unlinked_hole {prev h : ℕ} (hne : prev≠h) (k : ℕ) : (unlinked w d prev h).hole k=
      if k=h then (w.hole h).freed
      else if k=prev ∧ prev≠none8 then {w.hole prev with next := (w.hole h).next} else w.hole k := by
  unfold unlinked
  rw [holeThread_hole]
  by_cases hk : k=h
  · subst hk
    simp [setHole,Ne.symm hne]
  · simp [setHole,hk,hne]

variable {pre post : List ℕ} {i first last : ℕ}

theorem holeAlloc_some (h : HolesOk cfg w hs) (hlt : (flat cfg.ip4ReassDatagrams hs).length < cfg.ip4ReassHoles) (first last : ℕ) :
    ∃ i < cfg.ip4ReassHoles,(w.hole i).state=.free ∧
      holeAlloc cfg w first last=some (w.setHole i ⟨first%2^16,last%2^16,none8,.holding⟩,i) := by
  obtain ⟨i,hi⟩ := h.kept.free hlt
  obtain ⟨hf,hlt',-⟩ := firstIndex_some.1 hi
  have hsm : (fun k => !(w.hole k).state != .free)=fun k => (w.hole k).state==.free := by
    funext k
    simp [bne]
  refine ⟨i,hlt',by simpa using hf,?_⟩
  unfold holeAlloc
  rw [←hsm,hi]
  rfl

/-- The tables with a hole put behind another. -/
def linked (w : Work) (d prev next i first last : ℕ) : Work :=
  holeThread (w.setHole i ⟨first,last,next,.holding⟩) d prev i

/-- Whether the list was mended before does not matter to a piece put in its place. -/
theorem linked_unlinked (w : Work) (d prev h i first last : ℕ) :
    linked (w.setHole h (w.hole h).freed) d prev (w.hole h).next i first last=
      linked (unlinked w d prev h) d prev (w.hole h).next i first last := by
  unfold linked unlinked
  by_cases hn : prev=none8
  · simp [holeThread,hn,setHole,setRow]
  simp only [holeThread,if_neg hn,setHole]
  congr 1
  funext k
  by_cases hkp : k=prev
  · subst hkp
    by_cases hki : k=i
    · subst hki
      simp
    · simp [hki]
  · by_cases hki : k=i
    · subst hki
      simp [hkp]
    · simp [hkp,hki]

theorem linked_hole (w : Work) (d next first last : ℕ) {prev i : ℕ} (hne : prev≠i) (k : ℕ) :
    (linked w d prev next i first last).hole k=
      if k=i then ⟨first,last,next,.holding⟩
      else if k=prev ∧ prev≠none8 then {w.hole prev with next := i} else w.hole k := by
  unfold linked
  rw [holeThread_hole]
  by_cases hk : k=i
  · subst hk
    simp [setHole,Ne.symm hne]
  · simp [setHole,hk,hne]

theorem holePiece_eq (cfg : Config) (w : Work) (d prev next first last : ℕ) : holePiece cfg w d prev next first last=
      (firstIndex cfg.ip4ReassHoles fun i => (w.hole i).state==.free).map fun i =>
        (linked w d prev next i (first%2^16) (last%2^16),i) := by
  unfold holePiece holeAlloc linked
  rw [Option.map_map]
  congr 1
  funext i
  simp [setHole]

theorem holePiece_unlinked (cfg : Config) (w : Work) (d prev h first last : ℕ) :
    holePiece cfg (w.setHole h (w.hole h).freed) d prev (w.hole h).next first last=
      holePiece cfg (unlinked w d prev h) d prev (w.hole h).next first last := by
  have hst : (fun i => ((w.setHole h (w.hole h).freed).hole i).state==.free)=
      fun i => ((unlinked w d prev h).hole i).state==.free := by
    funext i
    unfold unlinked
    rw [holeThread_hole]
    split_ifs with hi
    · rw [hi.1]
    · rfl
  rw [holePiece_eq,holePiece_eq,hst]
  congr 1
  funext i
  rw [linked_unlinked]

/-- A piece of a hole is put behind a list where there is one. -/
def pieceIf (cfg : Config) (w : Work) (d prev next first last : ℕ) (c : Prop) [Decidable c] : Work×Option ℕ :=
  if c then
    match holePiece cfg w d prev next first last with
    | none => (w,none)
    | some (x,p) => (x,some p)
  else (w,some prev)

/-- `holeCut` takes the hole out and puts its pieces in its place. -/
theorem holeCut_eq (cfg : Config) (w : Work) (d prev i first last : ℕ) (mf : Bool) : holeCut cfg w d prev i first last mf=
      match pieceIf cfg (unlinked w d prev i) d prev (w.hole i).next (w.hole i).first (first-1) ((w.hole i).first<first) with
      | (x,none) => (x,none)
      | (x,some p) => pieceIf cfg x d p (w.hole i).next (last+1) (w.hole i).last (last<(w.hole i).last ∧ mf) := by
  unfold holeCut pieceIf
  dsimp only
  rw [holePiece_unlinked]
  by_cases ht : last<(w.hole i).last ∧ mf
  · simp only [if_pos ht]
    split_ifs
    · cases holePiece cfg (unlinked w d prev i) d prev (w.hole i).next (w.hole i).first (first-1) with
      | none => rfl
      | some r =>
        dsimp only [Option.map_some,Option.getD_some]
        cases holePiece cfg r.1 d r.2 (w.hole i).next (last+1) (w.hole i).last <;> rfl
    · simp only [Option.map_none,Option.getD_none,holePiece_unlinked]
      cases holePiece cfg (unlinked w d prev i) d prev (w.hole i).next (last+1) (w.hole i).last <;> rfl
  · simp only [if_neg ht]
    split_ifs
    · cases holePiece cfg (unlinked w d prev i) d prev (w.hole i).next (w.hole i).first (first-1) <;> rfl
    · rfl

/-- One turn of the loop. -/
def holeTurn (cfg : Config) (d first last : ℕ) (mf : Bool) (w : Work) (prev h : ℕ) : Work×Option ℕ :=
  if (w.hole h).last<first ∨ last<(w.hole h).first then (w,some h) else holeCut cfg w d prev h first last mf

theorem holeLoop_eq (d first last : ℕ) (mf : Bool) (fuel : ℕ) (w : Work) (prev h : ℕ) :
    holeLoop cfg d first last mf fuel w prev h=Slots.pass none8 Work.holeNext (holeTurn cfg d first last mf) fuel w prev h := by
  induction fuel generalizing w prev h with
  | zero => rfl
  | succ fuel ih =>
    unfold holeLoop Slots.pass holeTurn
    by_cases hr : (w.hole h).last<first ∨ last<(w.hole h).first
    · simp only [if_pos hr,ih]
      rfl
    · simp only [if_neg hr,ih]
      rfl

variable (h : HolesOk cfg w hs) (hd : d < cfg.ip4ReassDatagrams) (hu : (w.row d).state≠.free)
include h hd hu

theorem unlinked_worked (hl : hs d=pre++i::post) : Worked cfg w (unlinked w d (behind none8 pre) i) hs d (pre++post) ∧
      ∀ k∈pre++post,(unlinked w d (behind none8 pre) i).gap k=w.gap k := by
  have hne := h.behind_ne holes_le_none hd hl
  have hnd := h.kept.nodup_row hd
  rw [hl] at hnd
  have hi : i∉pre++post := (nodup_cons.1 (nodup_middle.1 hnd)).1
  have hr : Rethreaded d w (unlinked w d (behind none8 pre) i) :=
    (Rethreaded.setHole d w i _).trans (.holeThread d _ _ _)
  have hok : HolesBy cfg (unlinked w d (behind none8 pre) i) ((flat cfg.ip4ReassDatagrams hs).length-1)
      (update hs d (pre++post)) := by
    refine h.cutOut holes_le_none hd (by simpa using hu) hl (fun k => by rw [hr.state]) (fun k hk => by rw [hr.row_ne hk])
      (holeThread_head) (fun k _ => ?_) fun k hk => ?_
    · rw [unlinked_hole hne,update_apply]
      split_ifs with h1 h2
      · rfl
      · rw [h2.1]
      · rfl
    · unfold holeNext
      rw [unlinked_hole hne,if_neg hk]
      split_ifs <;> rfl
  refine ⟨⟨hok.ok,hr,fun k hk _ => ?_⟩,fun k hk => ?_⟩
  · rw [unlinked_hole hne,if_neg,if_neg]
    · rintro ⟨rfl,hn⟩
      rcases h.behind_cases holes_le_none hd hl with ⟨-,hst⟩|⟨-,hm,-⟩
      · exact hn hst
      · exact hk hm
    · rintro rfl
      exact hk (by rw [hl]; simp)
  · unfold gap
    have hki : k≠i := by
      rintro rfl
      exact hi hk
    rw [unlinked_hole hne,if_neg hki]
    split_ifs with hkp
    · rw [hkp.1]
    · rfl

theorem linked_worked (hl : hs d=pre++post) (hi : i < cfg.ip4ReassHoles) (hf : (w.hole i).state=.free)
    (hln : linked w d (behind none8 pre) (post.head?.getD none8) i first last=u) :
    Worked cfg w u hs d (pre++i::post) ∧ u.gap i=⟨first,last⟩ ∧ ∀ k∈pre++post,u.gap k=w.gap k := by
  have hnt : i∉hs d := fun hm => by
    have hus := (h.kept.used_of_mem hd hm).2
    simp [hf] at hus
  have hc := h.behind_cases holes_le_none hd hl
  have hne := h.behind_ne_free holes_le_none hd hl hi (by simpa using hf)
  have hr : Rethreaded d w u := hln ▸ (Rethreaded.setHole d w i _).trans (.holeThread d _ _ _)
  have hhd : (u.row d).holeHead=if behind none8 pre=none8 then i else (w.row d).holeHead := hln ▸ holeThread_head
  have hh := linked_hole w d (post.head?.getD none8) first last hne
  rw [hln] at hh
  have hok : HolesBy cfg u ((flat cfg.ip4ReassDatagrams hs).length+1) (update hs d (pre++i::post)) := by
    refine h.putIn holes_le_none hd hl (h.chain d hd (by simpa using hu)) hi (by simpa using hf)
      (fun k _ => by rw [hr.state]) (by rw [hr.state]; simpa using hu) (fun k hk => by rw [hr.row_ne hk]) hhd (fun k _ => ?_) (fun k hk => ?_) ?_
    · rw [hh,update_apply]
      split_ifs with h1 h2
      · rfl
      · rw [h2.1]
      · rfl
    · unfold holeNext
      rw [hh,if_neg hk]
      split_ifs <;> rfl
    · unfold holeNext
      rw [hh,if_pos rfl]
  refine ⟨⟨hok.ok,hr,fun k hk hku => ?_⟩,?_,fun k hk => ?_⟩
  · rw [hh,if_neg,if_neg]
    · rintro ⟨rfl,hn⟩
      rcases hc with ⟨-,hst⟩|⟨-,hmm,-⟩
      · exact hn hst
      · exact hk hmm
    · rintro rfl
      exact hku hf
  · unfold gap
    rw [hh,if_pos rfl]
  · have hki : k≠i := by
      rintro rfl
      exact hnt (by rw [hl]; exact hk)
    unfold gap
    rw [hh,if_neg hki]
    split_ifs with hkp
    · rw [hkp.1]
    · rfl

theorem holePiece_worked (hl : hs d=pre++post) (hlt : (flat cfg.ip4ReassDatagrams hs).length < cfg.ip4ReassHoles) (hf : first<2^16) (hl' : last<2^16) :
    ∃ u i,holePiece cfg w d (behind none8 pre) (post.head?.getD none8) first last=some (u,i) ∧
      Worked cfg w u hs d (pre++i::post) ∧ u.gap i=⟨first,last⟩ ∧ ∀ k∈pre++post,u.gap k=w.gap k := by
  obtain ⟨i,hi⟩ := h.kept.free hlt
  obtain ⟨hfr,hlt',-⟩ := firstIndex_some.1 hi
  have hsm : (fun k => !(w.hole k).state != .free)=fun k => (w.hole k).state==.free := by
    funext k
    simp [bne]
  rw [hsm] at hi
  obtain ⟨hw,hg,hk⟩ := linked_worked h hd hu hl hlt' (by simpa using hfr) rfl
  refine ⟨_,i,?_,hw,hg,hk⟩
  rw [holePiece_eq,hi,Nat.mod_eq_of_lt hf,Nat.mod_eq_of_lt hl']
  rfl

theorem pieceIf_worked (hl : hs d=pre++post) (hlt : (flat cfg.ip4ReassDatagrams hs).length < cfg.ip4ReassHoles)
    (first last : ℕ) (c : Prop) [Decidable c] (hf : c → first<2^16) (hl' : c → last<2^16) :
    ∃ u mid,pieceIf cfg w d (behind none8 pre) (post.head?.getD none8) first last c=
        (u,some (behind none8 (pre++mid))) ∧
      Worked cfg w u hs d (pre++mid++post) ∧ u.gaps mid=(if c then [⟨first,last⟩] else []) ∧
      (∀ k∈pre++post,u.gap k=w.gap k) ∧ mid.length=if c then 1 else 0 := by
  unfold pieceIf
  by_cases hc : c
  · obtain ⟨u,i,hi,hw,hg,hk⟩ := holePiece_worked h hd hu hl hlt (hf hc) (hl' hc)
    refine ⟨u,[i],?_,by simpa using hw,?_,hk,(if_pos hc).symm⟩
    · rw [if_pos hc,hi,behind_concat]
    · rw [if_pos hc,gaps,map_singleton,hg]
  rw [if_neg hc,if_neg hc,if_neg hc]
  have hw := Worked.refl h d
  rw [hl] at hw
  exact ⟨w,[],by rw [append_nil],by simpa using hw,rfl,fun _ _ => rfl,rfl⟩

theorem holeCut_worked (mf : Bool) (hl : hs d=pre++i::post) (hr : ¬((w.hole i).last<first ∨ last<(w.hole i).first))
    (hh : (w.hole i).last<2^16) (hlt : (flat cfg.ip4ReassDatagrams hs).length < cfg.ip4ReassHoles) :
    ∃ u mid,holeCut cfg w d (behind none8 pre) i first last mf=(u,some (behind none8 (pre++mid))) ∧
      Worked cfg w u hs d (pre++mid++post) ∧ u.gaps mid=(w.gap i).cut first (last+1) mf ∧
      (∀ k∈pre++post,u.gap k=w.gap k) ∧ (mid.length≤1 ∨ last+1≤(w.hole i).last) := by
  have hn : (w.hole i).next=post.head?.getD none8 := h.next_eq hd (by simpa using hu) hl
  obtain ⟨hg,hkp⟩ := unlinked_worked h hd hu hl
  have hu0 : ((unlinked w d (behind none8 pre) i).row d).state≠.free := by rwa [hg.rest.state]
  have hln : ∀ l : List ℕ,_ := fun l => length_flat_update hs l hd
  simp only [hl,length_append,length_cons] at hln
  rw [holeCut_eq,hn]
  generalize unlinked w d (behind none8 pre) i=v at *
  have hb := hln (pre++post)
  rw [length_append] at hb
  obtain ⟨x,m,hx,hwx,hgx,hkx,hmx⟩ := pieceIf_worked hg.ok hd hu0 (update_self d (pre++post) hs) (by omega)
    (w.hole i).first (first-1) ((w.hole i).first<first) (fun _ => by omega) fun _ => by omega
  have hw1 := hg.trans h hd hwx
  have hf := hln (pre++m++post)
  rw [length_append,length_append] at hf
  obtain ⟨y,n,hy,hwy,hgy,hky,hny⟩ := pieceIf_worked hw1.ok hd (by rwa [hwx.rest.state]) (update_self d (pre++m++post) hs)
    (by split_ifs at hmx <;> omega) (last+1) (w.hole i).last (last<(w.hole i).last ∧ mf)
    (fun _ => by omega) fun _ => hh
  rw [hx]
  refine ⟨y,m++n,?_,?_,?_,fun k hk => ?_,?_⟩
  · rw [←append_assoc]
    exact hy
  · rw [←append_assoc]
    exact hw1.trans h hd hwy
  · have hc : (w.gap i).cut first (last+1) mf=_ := if_neg fun hor => hr (hor.imp_right fun hle => hle)
    have hm : m.map y.gap=m.map x.gap := map_congr_left fun k hk => hky k (by simp [hk])
    rw [hc,gaps,map_append,hm]
    exact congrArg₂ _ hgx hgy
  · refine (hky k ?_).trans ((hkx k hk).trans (hkp k hk))
    rcases mem_append.1 hk with hk|hk <;> simp [hk]
  · rw [length_append,hmx,hny]
    by_cases ht : last<(w.hole i).last ∧ mf
    · exact .inr ht.1
    rw [if_neg ht]
    split_ifs
    · exact .inl le_rfl
    · exact .inl (Nat.zero_le _)

/-- `fillHoles` takes a fragment out of the gaps of a row. -/
theorem fillHoles_worked (first last : ℕ) (mf : Bool) (hap : Apart (w.gaps (hs d))) (hsm : ∀ k∈hs d,(w.hole k).last<2^16)
    (hrm : (flat cfg.ip4ReassDatagrams hs).length < cfg.ip4ReassHoles) :
    ∃ u l,fillHoles cfg w d first last mf=(u,true) ∧ Worked cfg w u hs d l ∧
      u.gaps l=cut first (last+1) mf (w.gaps (hs d)) := by
  have hc := h.chain d hd (by simpa using hu)
  have hlen := hc.length_le holes_le_none
  -- what a turn needs of the rest of the list: its gaps are apart, and an entry is free or none of them is reached
  have hp := @pass_spec Work Gap none8 holeNext (holeTurn cfg d first last mf)
    (fun s pre rest => Worked cfg w s hs d (pre++rest) ∧ Apart (s.gaps rest) ∧ (∀ k∈rest,(s.gap k).last<2^16) ∧
      ((flat cfg.ip4ReassDatagrams (update hs d (pre++rest))).length < cfg.ip4ReassHoles ∨
        ∀ k∈rest,last+1≤(s.gap k).first)) gap (Gap.cut first (last+1) mf) ?_ (hs d) [] (cfg.ip4ReassHoles+1) w (by omega)
    ⟨.refl h d,hap,hsm,.inl (by rwa [nil_append,update_eq_self])⟩
  · obtain ⟨u,l,hlp,⟨hw,-⟩,hg,-⟩ := hp
    refine ⟨u,l,?_,by simpa using hw,hg⟩
    unfold fillHoles
    rw [hc.head_eq,holeLoop_eq]
    exact hlp
  rintro s pre i rest ⟨hw,hap,hsm,hrm⟩
  have hl : update hs d (pre++i::rest) d=pre++i::rest := update_self _ _ _
  have hus : (s.row d).state≠.free := by rwa [hw.rest.state]
  have hap' : Apart (s.gaps rest) := (apart_cons.1 hap).2.2
  refine ⟨hw.ok.ne_stop holes_le_none hd (show i∈_ by rw [hl]; simp),hw.ok.next_eq hd (by simpa using hus) hl,?_⟩
  unfold holeTurn
  by_cases hr : (s.hole i).last<first ∨ last<(s.hole i).first
  · -- out of reach: the hole stands
    refine ⟨s,[i],by rw [if_pos hr,behind_concat],?_,fun _ _ => rfl,by simpa using hw,hap',
      fun k hk => hsm k (mem_cons_of_mem i hk),?_⟩
    · exact (if_pos hr : (s.gap i).cut first (last+1) mf=[s.gap i]).symm
    · rw [append_assoc,singleton_append]
      exact hrm.imp_right fun ha k hk => ha k (mem_cons_of_mem i hk)
  have hlt := hrm.resolve_right fun ha => hr (.inr (ha i mem_cons_self))
  obtain ⟨v,mid,hct,hw',hm,hkp,hcn⟩ :=
    holeCut_worked hw.ok hd hus mf hl hr (hsm i mem_cons_self) hlt
  have hsa : v.gaps rest=s.gaps rest := map_congr_left fun k hk => hkp k (by simp [hk])
  refine ⟨v,mid,by rw [if_neg hr,hct],hm,hkp,hw.trans h hd hw',by rwa [hsa],
    fun k hk => by rw [hkp k (by simp [hk])]; exact hsm k (mem_cons_of_mem i hk),?_⟩
  rcases hcn with hle|hin
  · have hn := length_flat_update hs (pre++mid++rest) hd
    have ho := length_flat_update hs (pre++i::rest) hd
    simp only [length_append,length_cons] at hn ho
    exact .inl (by omega)
  · exact .inr fun k hk => by rw [hkp k (by simp [hk])]; exact hap.beyond hin (s.gap k) (mem_map_of_mem hk)

/-- `fills` counts the octets of a fragment that were missing. -/
theorem fills_eq (first last : ℕ) : fills cfg w d first last=filled first last (w.gaps (hs d)) := by
  have hl : w.holes cfg d=hs d := h.walk holes_le_none hd (by simpa using hu)
  unfold fills filled gaps
  rw [hl,map_map]
  rfl

theorem freeHoles_worked :
    HolesOk cfg (freeHoles cfg w d) (update hs d []) ∧ ∀ i,i∉hs d → (freeHoles cfg w d).hole i=w.hole i := by
  have hl : w.holes cfg d=hs d := h.walk holes_le_none hd (by simpa using hu)
  have hh : ∀ i,(freeHoles cfg w d).hole i=if i∈hs d then (w.hole i).freed else w.hole i := by
    intro i
    rw [←hl]
    rfl
  have hr : ∀ k,k≠d → (freeHoles cfg w d).row k=w.row k := fun k hk => update_of_ne hk _ _
  have hsl : (freeHoles cfg w d).row d={w.row d with holeHead := none8,cursor := none8} :=
    update_self _ _ _
  have hok : HolesBy cfg (freeHoles cfg w d) ((flat cfg.ip4ReassDatagrams hs).length-(hs d).length) (update hs d []) := by
    refine h.rethread hd (fun k hk => by rw [hr k hk]) (fun k hk => by rw [hr k hk]) (by rw [hsl]; simpa using hu)
      ((h.kept.release hd).congr (fun i _ => ?_) fun _ _ => rfl) ?_ fun i hi _ => ?_
    · rw [hh]
      split_ifs <;> rfl
    · rw [hsl]
      rfl
    · unfold holeNext
      rw [hh,if_neg hi]
  refine ⟨hok.ok,fun i hi => ?_⟩
  rw [hh,if_neg hi]

end Lists

end Holes

end IdemIp.Ip4Reass
