import IdemIp.IndexChain
import IdemIp.IpHeaders
import IdemIp.Pieces

/-!
# IPv6 reassembly, `ip6_reass.c`

The IPv4 unit's design with RFC 8200's rules: an overlap abandons the packet, a
fragment at offset zero must carry the whole header chain, and the caller drops
a datagram it was told to give up. `carve` and `trim` cut a fragment out of the
holes of one row in place, as RFC 815 does, and never run out of entries.
-/

namespace IdemIp.Ip6Reass

section Unit

open IndexChain

/-- State of a datagram, `IP6_REASS_HOLDING` and the others. -/
inductive State
  | holding | complete | expired | abandoned
deriving DecidableEq

/-- Why a fragment was refused, `IdemIpIp6ReassErr`. -/
inductive Err
  | none | payloadLen | fragOffset | headerChain | overlap | timeout
deriving DecidableEq

/-- One datagram, `Ip6ReassDatagram`. -/
structure Datagram where
  (ident deadlineMs : BitVec 32)
  (src dst : Octets)
  totalLen : ℕ
  /-- End of the Fragmentable Part, once the last fragment came. -/
  (fragEnd fragHead holeHead fragCount : ℕ)
  nextHdr : BitVec 8
  (firstSeen lastSeen used : Bool)
  state : State

def Datagram.zero : Datagram := ⟨0,0,.zero,.zero,0,0,0,0,0,0,false,false,false,.holding⟩

/-- One held fragment, `Ip6ReassFrag`. -/
structure Frag where
  (desc offset len : ℕ)
  /-- Octets from the IPv6 header to them. -/
  (hdrLen next : ℕ)
  used : Bool

/-- One hole, `Ip6ReassHole`. -/
structure Hole where
  (first last next : ℕ)
  used : Bool

/-- Result members of the operand block, `Ip6ReassIo`. -/
structure Io where
  status : Status
  err : Err
  complete : Bool
  (datagram fragCount : ℕ)
  nextHdr : BitVec 8
  totalLen : ℕ
  /-- Rows a tick found to give up. -/
  (expired fragDesc fragOffset fragLen : ℕ)

/-- The unit's borrow. -/
structure Work where
  /-- Whether `clear` has marked it. -/
  ready : Bool
  nowMs : BitVec 32
  (datagrams frags holes : ℕ)
  row : ℕ → Datagram
  frag : ℕ → Frag
  hole : ℕ → Hole
  io : Io

variable (w : Work) (i : ℕ)

def Work.setRow (d : Datagram) : Work := {w with row := Function.update w.row i d}

def Work.setFrag (f : Frag) : Work := {w with frag := Function.update w.frag i f}

def Work.setHole (h : Hole) : Work := {w with hole := Function.update w.hole i h}

def Work.status (w : Work) (s : Status) : Work := {w with io := {w.io with status := s}}

/-- Zero the tables and mark the unit, `idemip_ip6_reass_clear`. -/
def clear : Work :=
  ⟨true,0,0,0,0,fun _ => .zero,fun _ => ⟨0,0,0,0,0,false⟩,fun _ => ⟨0,0,0,false⟩,{w.io with status := .ok}⟩

/-- Report why a fragment was refused; the outcome stays an error. -/
def Work.refuse (e : Err) : Work := {w with io := {w.io with err := e}}

def Work.fragNext : ℕ := (w.frag i).next

def Work.holeNext : ℕ := (w.hole i).next

variable (cfg : Config) (w : Work) (d : ℕ)

/-- Fragments of a row in list order. -/
def Work.fragsOf : List ℕ :=
  walk w.fragNext cfg.ip6ReassFrags cfg.ip6ReassFrags (w.row d).fragHead

/-- Holes of a row in list order. -/
def Work.holesOf : List ℕ :=
  walk w.holeNext cfg.ip6ReassHoles cfg.ip6ReassHoles (w.row d).holeHead

/-- Take a row, `ip6_reass_take_datagram`. -/
def takeDatagram : Option (Work×ℕ) :=
  if cfg.ip6ReassDatagrams≤w.datagrams then none
  else (firstIndex cfg.ip6ReassDatagrams fun i => !(w.row i).used).map fun i =>
    ({w.setRow i {Datagram.zero with used := true,fragHead := none8,holeHead := none8} with
      datagrams := w.datagrams+1},i)

/-- Take a fragment, `ip6_reass_take_frag`. -/
def takeFrag : Option (Work×ℕ) :=
  if cfg.ip6ReassFrags≤w.frags then none
  else (firstIndex cfg.ip6ReassFrags fun i => !(w.frag i).used).map fun i =>
    ({w.setFrag i ⟨0,0,0,0,none8,true⟩ with frags := w.frags+1},i)

/-- Take a hole, `ip6_reass_take_hole`. -/
def takeHole : Option (Work×ℕ) :=
  if cfg.ip6ReassHoles≤w.holes then none
  else (firstIndex cfg.ip6ReassHoles fun i => !(w.hole i).used).map fun i =>
    ({w.setHole i ⟨0,0,none8,true⟩ with holes := w.holes+1},i)

/-- Give back a row with its fragments and holes, `ip6_reass_put_datagram`. -/
def putDatagram : Work :=
  let fs := w.fragsOf cfg d
  let hs := w.holesOf cfg d
  {w with
    frag := fun i => if i∈fs then {w.frag i with used := false} else w.frag i
    hole := fun i => if i∈hs then {w.hole i with used := false} else w.hole i
    frags := w.frags-fs.length
    holes := w.holes-hs.length
    row := Function.update w.row d .zero
    datagrams := w.datagrams-1}

/-- Give back a fragment that was taken and not filed. -/
def putFrag (f : ℕ) : Work :=
  {w.setFrag f {w.frag f with used := false} with frags := w.frags-1}

/-- Row a fragment belongs to, `ip6_reass_match`. -/
def matchRow (src dst : Octets) (ident : BitVec 32) : Option ℕ :=
  firstIndex cfg.ip6ReassDatagrams fun i =>
    (w.row i).used && ((w.row i).state==.holding || (w.row i).state==.abandoned) && (w.row i).ident==ident &&
      (w.row i).src.bytesEq src 16 && (w.row i).dst.bytesEq dst 16

/-- What a scan of the held fragments found; `clear` names the one to file behind. -/
inductive Scan
  | clear (prev : ℕ)
  | dup | overlap
deriving DecidableEq

/-- Compare a fragment with those held, in list order. -/
def scanList (w : Work) (offset len : ℕ) : List ℕ → ℕ → Scan
  | [],prev => .clear prev
  | f::fs,prev =>
    let fr := w.frag f
    if fr.offset=offset ∧ fr.len=len then .dup
    else if offset<fr.offset+fr.len ∧ fr.offset<offset+len then .overlap
    else scanList w offset len fs (if fr.offset<offset then f else prev)

/-- Compare a fragment with those a row holds, `ip6_reass_scan`. -/
def scan (d offset len : ℕ) : Scan := scanList w offset len (w.fragsOf cfg d) none8

/-- Point a hole, or the row, at another hole. -/
def holeThread (d at_ dest : ℕ) : Work :=
  if at_=none8 then w.setRow d {w.row d with holeHead := dest}
  else w.setHole at_ {w.hole at_ with next := dest}

/-- Give back a hole that leaves its row's list. -/
def putHole (d prev h : ℕ) : Work :=
  let u := holeThread w d prev (w.hole h).next
  {u.setHole h {u.hole h with used := false} with holes := u.holes-1}

/-- Cut a span out of one hole; the hole the next one hangs behind, none when no entry was left. -/
def carveHole (d prev h first end_ : ℕ) (more : Bool) : Work×Option ℕ :=
  let hole := w.hole h
  let head := decide (hole.first<first)
  let tail := decide (end_≤hole.last) && more
  let w := if head then w.setHole h {hole with last := (first-1)%2^16}
    else if tail then w.setHole h {hole with first := end_%2^16} else w
  if head && tail then
    match takeHole cfg w with
    | none => (w,none)
    | some (u,h2) =>
      let u := u.setHole h2 {u.hole h2 with first := end_%2^16,last := hole.last,next := hole.next}
      (u.setHole h {u.hole h with next := h2},some h2)
  else if head || tail then (w,some h)
  else (putHole w d prev h,some prev)

/-- The loop of `ip6_reass_carve`. -/
def carveLoop (d first end_ : ℕ) (more : Bool) : ℕ → Work → ℕ → ℕ → Work×Bool
  | 0,w,_,_ => (w,true)
  | fuel+1,w,prev,h =>
    if h=none8 then (w,true)
    else if (w.hole h).last<first ∨ end_≤(w.hole h).first then
      carveLoop d first end_ more fuel w h (w.hole h).next
    else
      let r := carveHole cfg w d prev h first end_ more
      match r.2 with
      | none => (r.1,false)
      | some p => carveLoop d first end_ more fuel r.1 p (w.hole h).next

/-- Take a span out of a row's holes, `ip6_reass_carve`. -/
def carve (d first end_ : ℕ) (more : Bool) : Work×Bool :=
  carveLoop cfg d first end_ more (cfg.ip6ReassHoles+1) w none8 (w.row d).holeHead

/-- The loop of `ip6_reass_trim`. -/
def trimLoop (d end_ : ℕ) : ℕ → Work → ℕ → ℕ → Work
  | 0,w,_,_ => w
  | fuel+1,w,prev,h =>
    if h=none8 then w
    else if end_≤(w.hole h).first then trimLoop d end_ fuel (putHole w d prev h) prev (w.hole h).next
    else
      let u := if end_≤(w.hole h).last then w.setHole h {w.hole h with last := (end_-1)%2^16} else w
      trimLoop d end_ fuel u h (w.hole h).next

/-- Take everything behind the end out of a row's holes, `ip6_reass_trim`. -/
def trim (d end_ : ℕ) : Work :=
  trimLoop d end_ (cfg.ip6ReassHoles+1) w none8 (w.row d).holeHead

/-- Payload Length of a packet put together, `ip6_reass_payload_len`. -/
def payloadLen : ℕ := (w.frag (w.row d).fragHead).hdrLen-48+(w.row d).fragEnd

/-- Whether a row holds an octet at or behind an end, `ip6_reass_past_end`. -/
def pastEnd (d end_ : ℕ) : Bool :=
  (w.fragsOf cfg d).any fun f => end_<(w.frag f).offset+(w.frag f).len

/-- Operands of `input`, `Ip6ReassInputArgs`. -/
structure InputArgs where
  pkt : Octets
  (len fragHdr desc : ℕ)
  nowMs : BitVec 32

/-- What a Fragment header says, `Ip6ReassFields`. -/
structure Fields where
  ident : BitVec 32
  (offset fragLen : ℕ)
  /-- Octets from the IPv6 header to them. -/
  hdrLen : ℕ
  nextHdr : BitVec 8
  more : Bool

variable (f : Fields)

/-- One past the last octet of a fragment. -/
def Fields.fragEnd : ℕ := f.offset+f.fragLen

/-- Read the fields of a fragment, `ip6_reass_fields`. -/
def fields (a : InputArgs) : Option Fields :=
  let fh := a.fragHdr
  let pl := Ip6.payloadLen a.pkt
  if fh<40 ∨ a.len<fh+8 ∨ 0xFFFF<fh+8 then none
  else if a.len<pl+40 then none
  else if pl<fh-40+8 then none
  else
    let hdr := a.pkt.drop fh
    some ⟨Ip6.fragIdent hdr,Ip6.fragOffsetBytes hdr,pl-(fh-40)-8,fh+8,hdr 0,Ip6.fragMore hdr⟩

/-- Whether a first fragment lacks part of the header chain. -/
def chainShort (a : InputArgs) : Bool :=
  let bound := Ip6.payloadLen a.pkt+40
  let c := Ip6.walk a.pkt bound
  !c.ok || c.nextHdr != 59 && decide (bound ≤ c.offset)

/-- Whether a fragment disagrees with the end its row knows. -/
def inconsistent : Bool :=
  if f.more then (w.row d).lastSeen && decide ((w.row d).fragEnd<f.fragEnd)
  else pastEnd cfg w d f.fragEnd || (w.row d).lastSeen && (w.row d).fragEnd != f.fragEnd

/-- Abandon a packet over one of its fragments. -/
def abandonOver : Work :=
  let u := w.setRow d {w.row d with state := .abandoned}
  {u with io := {u.io with err := .overlap,datagram := d,fragCount := (u.row d).fragCount}}

/-- Judge a fragment against a row: refused with the work it leaves, or filed behind an entry. -/
def judge : Work⊕ℕ :=
  if (w.row d).state=.abandoned then .inl w
  else match scan cfg w d f.offset f.fragLen with
    | .dup => .inl w
    | .overlap => .inl (abandonOver w d)
    | .clear prev =>
      if inconsistent cfg w d f then .inl (abandonOver w d)
      else if (w.row d).firstSeen ∧ 65535<(w.frag (w.row d).fragHead).hdrLen-48+f.fragEnd then
        .inl (w.refuse .fragOffset)
      else .inr prev

/-- Name a fresh row after the fragment that opened it. -/
def Datagram.opened (r : Datagram) (w : Work) (a : InputArgs) (f : Fields) (hole : ℕ) : Datagram :=
  {r with
    holeHead := hole
    ident := f.ident
    src := (a.pkt.drop 8).padded 16
    dst := (a.pkt.drop 24).padded 16
    deadlineMs := w.nowMs+cfg.ip6ReassMaxageMs}

/-- Open a row with one hole over everything; none when a table is full. -/
def openRow (a : InputArgs) (f : Fields) : Work×Option ℕ :=
  match takeDatagram cfg w with
  | none => (w,none)
  | some (u,d) =>
    match takeHole cfg u with
    | none => (putDatagram cfg u d,none)
    | some (v,h) =>
      let v := v.setHole h {v.hole h with first := 0,last := 0xFFFF}
      (v.setRow d ((v.row d).opened cfg w a f h),some d)

/-- Link a fragment into its row behind an entry. -/
def fragLink (d fi prev : ℕ) : Work :=
  if prev=none8 then
    (w.setFrag fi {w.frag fi with next := (w.row d).fragHead}).setRow d {w.row d with fragHead := fi}
  else
    let u := w.setFrag fi {w.frag fi with next := (w.frag prev).next}
    u.setFrag prev {u.frag prev with next := fi}

/-- What a row learns from a fragment. -/
def Datagram.learned (r : Datagram) (f : Fields) : Datagram :=
  let r := {r with fragCount := r.fragCount+1}
  let r := if f.offset=0 then {r with nextHdr := f.nextHdr,firstSeen := true} else r
  if f.more then r else {r with fragEnd := f.fragEnd,lastSeen := true}

/-- File a fragment in its row. -/
def fileIn (d fi prev : ℕ) (a : InputArgs) (f : Fields) : Work :=
  let w := w.setFrag fi {w.frag fi with desc := a.desc,offset := f.offset,len := f.fragLen,hdrLen := f.hdrLen}
  let w := fragLink w d fi prev
  let w := w.setRow d ((w.row d).learned f)
  {w with io := {w.io with datagram := d,fragCount := (w.row d).fragCount,nextHdr := (w.row d).nextHdr}}

/-- Complete a row without holes; one too long to be a packet is abandoned with its fragments filed. -/
def complete (w : Work) (d : ℕ) : Work :=
  if (w.row d).holeHead≠none8 then w.status .ok
  else
    let total := payloadLen w d
    if 65535<total then (w.setRow d {w.row d with state := .abandoned}).refuse .fragOffset
    else
      let u := w.setRow d {w.row d with totalLen := total,state := .complete}
      {u with io := {u.io with totalLen := total,complete := true,status := .ok}}

/-- Cut a filed fragment out of the holes. -/
def settle : Work :=
  let r := carve cfg w d f.offset f.fragEnd f.more
  if !r.2 then r.1.setRow d {r.1.row d with state := .abandoned}
  else complete (if f.more then r.1 else trim cfg r.1 d f.fragEnd) d

/-- File a fragment in a row that takes it, or in a row of its own. -/
def fileFrag (row : Option ℕ) (prev : ℕ) (a : InputArgs) (f : Fields) : Work :=
  match takeFrag cfg w with
  | none => w.status .busy
  | some (u,fi) =>
    match row with
    | some d => settle cfg (fileIn u d fi prev a f) d f
    | none =>
      let r := openRow cfg u a f
      match r.2 with
      | none => (putFrag r.1 fi).status .busy
      | some d => settle cfg (fileIn r.1 d fi prev a f) d f

/-- Judge a fragment and file it, `ip6_reass_file`. -/
def file (a : InputArgs) : Work :=
  match fields a with
  | none => w
  | some f =>
    if f.more ∧ f.fragLen%8≠0 then w.refuse .payloadLen
    else if 65535<f.fragEnd then w.refuse .fragOffset
    else if f.offset=0 ∧ chainShort a then w.refuse .headerChain
    -- An atomic fragment is a packet of its own and matches no row.
    else if f.offset=0 ∧ f.more=false then fileFrag cfg w none none8 a f
    else match matchRow cfg w (a.pkt.drop 8) (a.pkt.drop 24) f.ident with
      | none => fileFrag cfg w none none8 a f
      | some d =>
        match judge cfg w d f with
        | .inl u => u
        | .inr prev => fileFrag cfg w (some d) prev a f

/-- Take a fragment, `idemip_ip6_reass_input`. -/
def input (a : InputArgs) : Work :=
  let u := {w with io := {w.io with
    status := .err
    err := .none
    complete := false
    datagram := none8
    fragCount := 0
    nextHdr := 0
    totalLen := 0}}
  if !w.ready || a.len<40 then u else file cfg {u with nowMs := a.nowMs} a

/-- Report one fragment of a row, `idemip_ip6_reass_frag_at`. -/
def fragAt (d index : ℕ) : Work :=
  let u := {w with io := {w.io with status := .err,fragDesc := 0,fragOffset := 0,fragLen := 0}}
  if !w.ready || cfg.ip6ReassDatagrams≤d || cfg.ip6ReassFrags ≤ index then u
  else if !(w.row d).used || (w.row d).fragCount ≤ index then u
  else
    let fr := w.frag (w.fragNext^[index] (w.row d).fragHead)
    {u with io := {u.io with fragDesc := fr.desc,fragOffset := fr.offset,fragLen := fr.len,status := .ok}}

/-- Give a row back, `idemip_ip6_reass_drop`. -/
def drop : Work :=
  let u := w.status .err
  if !w.ready || cfg.ip6ReassDatagrams≤d then u
  else if !(w.row d).used then u
  else (putDatagram cfg u d).status .ok

/-- A row against the clock. -/
def Datagram.aged (r : Datagram) (nowMs : BitVec 32) : Datagram :=
  if !r.used then r
  else if nowMs-r.deadlineMs<0x80000000 then
    match r.state with
    | .holding => {r with state := .expired}
    | .complete => {r with state := .abandoned}
    | _ => r
  else r

/-- Whether a row is to be given up. -/
def Datagram.givenUp (r : Datagram) : Bool := r.used && (r.state==.expired || r.state==.abandoned)

/-- Age the rows and report the first to give up, `idemip_ip6_reass_tick`. -/
def tick (nowMs : BitVec 32) : Work :=
  let u := {w with io := {w.io with status := .err,expired := 0,err := .none,datagram := none8,fragCount := 0}}
  if !w.ready then u
  else
    let v := {u with nowMs := nowMs,row := fun i => if i < cfg.ip6ReassDatagrams then (w.row i).aged nowMs else w.row i}
    let due := (List.range cfg.ip6ReassDatagrams).filter fun i => (v.row i).givenUp
    match due with
    | [] => v.status .ok
    | d::_ => {v with io := {v.io with
        status := .ok
        expired := due.length
        datagram := d
        fragCount := (v.row d).fragCount
        err := if (v.row d).state=.expired ∧ (v.row d).firstSeen then .timeout else .none}}

end Unit

section Holes

open IndexChain Slots Gaps List Work Function

/-- The span a hole describes. -/
def Work.gap (w : Work) (h : ℕ) : Gap := ⟨(w.hole h).first,(w.hole h).last⟩

def Work.gaps (w : Work) (l : List ℕ) : List Gap := l.map w.gap

variable (cfg : Config)

/-- Every row in use lists its holes, and no hole is on two lists. -/
abbrev HolesOk (w : Work) (hs : ℕ → List ℕ) : Prop :=
  Threaded cfg.ip6ReassDatagrams cfg.ip6ReassHoles none8 (fun i => (w.hole i).used) w.holes w.holeNext
    (fun d => (w.row d).holeHead) (fun d => (w.row d).used) hs

/-- Only the hole table has changed, and where the list of one row begins. -/
def Rethreaded (d : ℕ) (w u : Work) : Prop :=
  ∃ hole holes head,u={w with
    hole := hole
    holes := holes
    row := update w.row d {w.row d with holeHead := head}}

section Rethreaded

variable {d : ℕ} {w u v : Work}

theorem Rethreaded.refl (d : ℕ) (w : Work) : Rethreaded d w w :=
  ⟨w.hole,w.holes,(w.row d).holeHead,by rw [update_eq_self]⟩

theorem Rethreaded.trans (h : Rethreaded d w u) (h' : Rethreaded d u v) : Rethreaded d w v := by
  obtain ⟨hol,ho,head,rfl⟩ := h
  obtain ⟨hole',holes',head',rfl⟩ := h'
  refine ⟨hole',holes',head',?_⟩
  simp only [update_self,update_idem]

theorem Rethreaded.setHole (d : ℕ) (w : Work) (i : ℕ) (x : Hole) (n : ℕ) : Rethreaded d w {w.setHole i x with holes := n} :=
  ⟨update w.hole i x,n,(w.row d).holeHead,by rw [update_eq_self]; rfl⟩

theorem Rethreaded.holeThread (d : ℕ) (w : Work) (at_ dest : ℕ) : Rethreaded d w (holeThread w d at_ dest) := by
  unfold Ip6Reass.holeThread
  split_ifs
  · exact ⟨w.hole,w.holes,dest,rfl⟩
  · exact .setHole d w at_ _ w.holes

theorem Rethreaded.row_ne (h : Rethreaded d w u) {k : ℕ} (hk : k≠d) : u.row k=w.row k := by
  obtain ⟨hol,ho,head,rfl⟩ := h
  exact update_of_ne hk _ _

theorem Rethreaded.row (h : Rethreaded d w u) : u.row d={w.row d with holeHead := (u.row d).holeHead} := by
  obtain ⟨hol,ho,head,rfl⟩ := h
  simp only [update_self]

theorem Rethreaded.used (h : Rethreaded d w u) (k : ℕ) : (u.row k).used=(w.row k).used := by
  by_cases hk : k=d
  · rw [hk,h.row]
  · rw [h.row_ne hk]

end Rethreaded

section Lists

variable {cfg} {w u : Work} {hs : ℕ → List ℕ} {d : ℕ}

theorem holes_le_none : cfg.ip6ReassHoles≤none8 := cfg.ip6ReassHoles_lt.le

/-- Change the span of a hole. -/
def Work.resize (w : Work) (i first last : ℕ) : Work := w.setHole i ⟨first,last,(w.hole i).next,(w.hole i).used⟩

theorem resize_hole (i first last k : ℕ) :
    (w.resize i first last).hole k=if k=i then ⟨first,last,(w.hole i).next,(w.hole i).used⟩ else w.hole k :=
  update_apply _ _ _ _

theorem holesOk_resize (h : HolesOk cfg w hs) (i first last : ℕ) : HolesOk cfg (w.resize i first last) hs := by
  have hh : ∀ k,((w.resize i first last).hole k).used=(w.hole k).used ∧
      ((w.resize i first last).hole k).next=(w.hole k).next := by
    intro k
    rw [resize_hole]
    split_ifs with hk
    · rw [hk]
      exact ⟨rfl,rfl⟩
    · exact ⟨rfl,rfl⟩
  exact h.congr (fun _ => rfl) (fun _ => rfl) rfl (fun k _ => (hh k).1) fun k _ => (hh k).2

/-- What one pass has done so far: the list of one row is another, and the holes on no list of it are as they were. -/
structure Worked (cfg : Config) (w u : Work) (hs : ℕ → List ℕ) (d : ℕ) (l : List ℕ) : Prop where
  ok : HolesOk cfg u (update hs d l)
  rest : Rethreaded d w u
  /-- The holes of other rows are as they were. -/
  other : ∀ i,i∉hs d → (w.hole i).used=true → u.hole i=w.hole i

theorem Worked.refl (h : HolesOk cfg w hs) (d : ℕ) : Worked cfg w w hs d (hs d) :=
  ⟨by rwa [update_eq_self],.refl d w,fun _ _ _ => rfl⟩

theorem Worked.trans {v : Work} {l m : List ℕ} (hok : HolesOk cfg w hs) (hd : d < cfg.ip6ReassDatagrams)
    (h : Worked cfg w u hs d l) (h' : Worked cfg u v (update hs d l) d m) : Worked cfg w v hs d m := by
  refine ⟨?_,h.rest.trans h'.rest,fun i hi hui => ?_⟩
  · have hm := h'.ok
    rwa [update_idem] at hm
  · have hsm := h.other i hi hui
    refine (h'.other i ?_ (by rw [hsm]; exact hui)).trans hsm
    rw [update_self]
    exact hok.kept.off_list h.ok.kept hd hi hui

variable {prev i first end_ : ℕ} {pre post : List ℕ}

theorem putHole_hole (hne : prev≠i) (k : ℕ) : (putHole w d prev i).hole k=
      if k=i then {w.hole i with used := false}
      else if k=prev ∧ prev≠none8 then {w.hole prev with next := (w.hole i).next} else w.hole k := by
  unfold putHole holeThread
  by_cases hn : prev=none8
  · by_cases hk : k=i <;> simp [setRow,setHole,hn,hk]
  by_cases hk : k=i
  · simp [setHole,hn,hk,Ne.symm hne]
  · simp [setHole,update_apply,hn,hk]

theorem putHole_holes (prev i : ℕ) : (putHole w d prev i).holes=w.holes-1 := by
  unfold putHole holeThread
  split_ifs <;> rfl

theorem putHole_head {prev i : ℕ} :
    ((putHole w d prev i).row d).holeHead=if prev=none8 then (w.hole i).next else (w.row d).holeHead := by
  unfold putHole holeThread
  split_ifs <;> simp [setRow,setHole]

theorem takeHole_some (w : Work)
    (h : Kept cfg.ip6ReassDatagrams cfg.ip6ReassHoles (fun i => (w.hole i).used) w.holes hs) (hlt : w.holes < cfg.ip6ReassHoles) :
    ∃ i < cfg.ip6ReassHoles,(w.hole i).used=false ∧
      takeHole cfg w=some ({w.setHole i ⟨0,0,none8,true⟩ with holes := w.holes+1},i) := by
  obtain ⟨i,hi⟩ := h.free hlt
  obtain ⟨hf,hlt',-⟩ := firstIndex_some.1 hi
  refine ⟨i,hlt',by simpa using hf,?_⟩
  unfold takeHole
  rw [if_neg (by omega),hi]
  rfl

/-- The entry a hole is split with. -/
def splitHole (w : Work) (i j first end_ : ℕ) : Work :=
  {w with
    hole := update (update w.hole j ⟨end_,(w.hole i).last,(w.hole i).next,true⟩) i {w.hole i with last := first-1,next := j}
    holes := w.holes+1}

theorem resize_worked (h : HolesOk cfg w hs) (hl : hs d=pre++i::post) (hnd : (hs d).Nodup) (first last : ℕ) :
    Worked cfg w (w.resize i first last) hs d (pre++i::post) ∧ ∀ k∈pre++post,(w.resize i first last).gap k=w.gap k := by
  rw [hl] at hnd
  have hi : i∉pre++post := (nodup_cons.1 (nodup_middle.1 hnd)).1
  refine ⟨⟨?_,.setHole d w i _ w.holes,fun k hk _ => ?_⟩,fun k hk => ?_⟩
  · rw [←hl,update_eq_self]
    exact holesOk_resize h i first last
  · rw [resize_hole,if_neg]
    rintro rfl
    exact hk (by rw [hl]; simp)
  · have hki : k≠i := by
      rintro rfl
      exact hi hk
    unfold gap
    rw [resize_hole,if_neg hki]

/-- What `carveHole` does, case by case. -/
theorem carveHole_eq {more : Bool} (hf : first<2^16) (he : end_<2^16) : carveHole cfg w d prev i first end_ more=
      if (w.hole i).first<first then
        if end_≤(w.hole i).last ∧ more then
          match takeHole cfg (w.resize i (w.hole i).first (first-1)) with
          | none => (w.resize i (w.hole i).first (first-1),none)
          | some (u,j) =>
            let u := u.setHole j ⟨end_,(w.hole i).last,(w.hole i).next,(u.hole j).used⟩
            (u.setHole i {u.hole i with next := j},some j)
        else (w.resize i (w.hole i).first (first-1),some i)
      else if end_≤(w.hole i).last ∧ more then (w.resize i end_ (w.hole i).last,some i)
      else (putHole w d prev i,some prev) := by
  have hl : (first-1)%2^16=first-1 := Nat.mod_eq_of_lt (by omega)
  have hhg : end_%2^16=end_ := Nat.mod_eq_of_lt he
  have hb : (decide (end_≤(w.hole i).last) && more)=decide (end_≤(w.hole i).last ∧ more) := by
    cases more <;> simp
  unfold carveHole
  rw [hl,hhg]
  dsimp only
  rw [hb]
  by_cases hh : (w.hole i).first<first
  · by_cases ht : end_≤(w.hole i).last ∧ more
    · rw [if_pos hh,if_pos ht,decide_eq_true hh,decide_eq_true ht]
      rfl
    · rw [if_pos hh,if_neg ht,decide_eq_true hh,decide_eq_false ht]
      rfl
  by_cases ht : end_≤(w.hole i).last ∧ more
  · rw [if_neg hh,if_pos ht,decide_eq_false hh,decide_eq_true ht]
    rfl
  · rw [if_neg hh,if_neg ht,decide_eq_false hh,decide_eq_false ht]
    rfl

/-- One turn of the loop of `carve`. -/
def carveTurn (cfg : Config) (d first end_ : ℕ) (more : Bool) (w : Work) (prev h : ℕ) : Work×Option ℕ :=
  if (w.hole h).last<first ∨ end_≤(w.hole h).first then (w,some h) else carveHole cfg w d prev h first end_ more

theorem carveLoop_eq (d first end_ : ℕ) (more : Bool) (fuel : ℕ) (w : Work) (prev h : ℕ) :
    carveLoop cfg d first end_ more fuel w prev h=Slots.pass none8 Work.holeNext (carveTurn cfg d first end_ more) fuel w prev h := by
  induction fuel generalizing w prev h with
  | zero => rfl
  | succ fuel ih =>
    unfold carveLoop Slots.pass carveTurn
    by_cases hr : (w.hole h).last<first ∨ end_≤(w.hole h).first
    · simp only [if_pos hr,ih]
      rfl
    · simp only [if_neg hr,ih]
      rfl

/-- One turn of the loop of `trim`: the hole goes, or it stands up to the end. -/
def trimTurn (d end_ : ℕ) (w : Work) (prev h : ℕ) : Work×Option ℕ :=
  if end_≤(w.hole h).first then (putHole w d prev h,some prev)
  else (if end_≤(w.hole h).last then w.setHole h {w.hole h with last := (end_-1)%2^16} else w,some h)

theorem trimLoop_eq (d end_ fuel : ℕ) (w : Work) (prev h : ℕ) :
    (trimLoop d end_ fuel w prev h,true)=Slots.pass none8 Work.holeNext (trimTurn d end_) fuel w prev h := by
  induction fuel generalizing w prev h with
  | zero => rfl
  | succ fuel ih =>
    unfold trimLoop Slots.pass trimTurn
    by_cases hn : h=none8
    · rw [if_pos hn,if_pos hn]
    rw [if_neg hn,if_neg hn]
    by_cases hb : end_≤(w.hole h).first
    · rw [if_pos hb,if_pos hb]
      exact ih _ _ _
    · rw [if_neg hb,if_neg hb]
      exact ih _ _ _

variable (h : HolesOk cfg w hs) (hd : d < cfg.ip6ReassDatagrams) (hu : (w.row d).used=true)
include h hd hu

/-- The hole at hand goes, and the one before it is linked to the next. -/
theorem putHole_worked (hl : hs d=pre++i::post) : Worked cfg w (putHole w d (behind none8 pre) i) hs d (pre++post) ∧
      ∀ k∈pre++post,(putHole w d (behind none8 pre) i).gap k=w.gap k := by
  have hne := h.behind_ne holes_le_none hd hl
  have hnd := h.kept.nodup_row hd
  rw [hl] at hnd
  have hi : i∉pre++post := (nodup_cons.1 (nodup_middle.1 hnd)).1
  have hr : Rethreaded d w (putHole w d (behind none8 pre) i) := (Rethreaded.holeThread d w _ _).trans (.setHole d _ i _ _)
  refine ⟨⟨?_,hr,fun k hk _ => ?_⟩,fun k hk => ?_⟩
  · rw [HolesOk,putHole_holes]
    refine h.cutOut holes_le_none hd hu hl hr.used (fun k hk => by rw [hr.row_ne hk]) (putHole_head) (fun k _ => ?_)
      fun k hk => ?_
    · rw [putHole_hole hne,update_apply]
      split_ifs with h1 h2
      · rfl
      · rw [h2.1]
      · rfl
    · unfold holeNext
      rw [putHole_hole hne,if_neg hk]
      split_ifs <;> rfl
  · rw [putHole_hole hne,if_neg,if_neg]
    · rintro ⟨rfl,hn⟩
      rcases h.behind_cases holes_le_none hd hl with ⟨-,hst⟩|⟨-,hm,-⟩
      · exact hn hst
      · exact hk hm
    · rintro rfl
      exact hk (by rw [hl]; simp)
  · unfold gap
    have hki : k≠i := by
      rintro rfl
      exact hi hk
    rw [putHole_hole hne,if_neg hki]
    split_ifs with h2
    · rw [h2.1]
    · rfl

theorem splitHole_worked {first end_ : ℕ} {i j : ℕ} (hl : hs d=pre++i::post) (hj : j < cfg.ip6ReassHoles)
    (hf : (w.hole j).used=false) : Worked cfg w (splitHole w i j first end_) hs d (pre++i::j::post) ∧
      ∀ k∈pre++post,(splitHole w i j first end_).gap k=w.gap k := by
  have hi : i∈hs d := by
    rw [hl]
    simp
  have hnt : ∀ k,(w.hole k).used → k≠j := by
    rintro k hk rfl
    rw [hf] at hk
    cases hk
  have hus : ∀ k∈hs d,(w.hole k).used := fun k hk => (h.kept.used_of_mem hd hk).2
  have hji : j≠i := (hnt i (hus i hi)).symm
  have hh : ∀ k,(splitHole w i j first end_).hole k=if k=i then {w.hole i with last := first-1,next := j}
      else if k=j then ⟨end_,(w.hole i).last,(w.hole i).next,true⟩ else w.hole k := fun k => by
    simp only [splitHole,update_apply]
  have hn := h.ne_stop holes_le_none hd hi
  have hnd := h.kept.nodup_row hd
  rw [hl] at hnd
  have hin : i∉pre++post := (nodup_cons.1 (nodup_middle.1 hnd)).1
  have hsp : hs d=(pre++[i])++post := by
    rw [hl]
    simp
  have hok : HolesOk cfg (splitHole w i j first end_) (update hs d ((pre++[i])++j::post)) := by
    refine h.putIn holes_le_none hd hsp (h.chain d hd hu) hj hf (fun _ _ => rfl) hu (fun _ _ => rfl) ?_ (fun k _ => ?_)
      (fun k hk => ?_) ?_
    · rw [behind_concat,if_neg hn]
      rfl
    · rw [hh,update_apply]
      split_ifs with h1 h2 h2
      · exact absurd (h2.symm.trans h1) hji
      · rw [h1]
      · rfl
      · rfl
    · unfold holeNext
      rw [hh,behind_concat,if_neg hk]
      split_ifs with h1 h2 h2
      · rfl
      · exact absurd ⟨h1,hn⟩ h2
      · exact absurd h2.1 h1
      · rfl
    · unfold holeNext
      rw [hh,if_neg hji,if_pos rfl]
      exact h.next_eq hd hu hl
  rw [append_assoc] at hok
  refine ⟨⟨hok,⟨_,_,(w.row d).holeHead,by rw [update_eq_self]; rfl⟩,fun k hk hku => ?_⟩,fun k hk => ?_⟩
  · rw [hh,if_neg,if_neg (hnt k hku)]
    rintro rfl
    exact hk hi
  · have hku := hus k (by rw [hl]; rcases mem_append.1 hk with hk|hk <;> simp [hk])
    unfold gap
    rw [hh,if_neg,if_neg (hnt k hku)]
    rintro rfl
    exact hin hk

theorem carveHole_worked {more : Bool} (hl : hs d=pre++i::post)
    (hr : ¬((w.hole i).last<first ∨ end_≤(w.hole i).first)) (hfr : first<2^16) (he : end_<2^16)
    (hrm : (w.hole i).first<first → end_≤(w.hole i).last → w.holes < cfg.ip6ReassHoles) :
    ∃ u mid,carveHole cfg w d (behind none8 pre) i first end_ more=(u,some (behind none8 (pre++mid))) ∧
      Worked cfg w u hs d (pre++mid++post) ∧ u.gaps mid=(w.gap i).cut first end_ more ∧
      (∀ k∈pre++post,u.gap k=w.gap k) ∧ (u.holes≤w.holes ∨ end_≤(w.hole i).last) := by
  have hnd := h.kept.nodup_row hd
  have hc : (w.gap i).cut first end_ more=(if (w.hole i).first<first then [⟨(w.hole i).first,first-1⟩] else [])++
        if end_≤(w.hole i).last ∧ more then [⟨end_,(w.hole i).last⟩] else [] := if_neg hr
  have ho : behind none8 (pre++[i])=i := behind_concat
  rw [carveHole_eq hfr he,hc]
  by_cases hh : (w.hole i).first<first
  · rw [if_pos hh,if_pos hh]
    by_cases ht : end_≤(w.hole i).last ∧ more
    · -- the fragment lies inside the hole
      obtain ⟨j,hj,hf,htk⟩ := takeHole_some _ (holesOk_resize h i (w.hole i).first (first-1)).kept (hrm hh ht.1)
      have hji : j≠i := by
        rintro rfl
        have hus := (h.kept.used_of_mem hd (i := j) (by rw [hl]; simp)).2
        rw [resize_hole,if_pos rfl] at hf
        cases hf.symm.trans hus
      rw [resize_hole,if_neg hji] at hf
      obtain ⟨hw,hk⟩ := splitHole_worked h hd hu hl hj hf
      rw [if_pos ht,if_pos ht,htk]
      refine ⟨splitHole w i j first end_,[i,j],?_,by simpa using hw,?_,hk,.inr ht.1⟩
      · have hb : behind none8 (pre++[i,j])=j := by simp [behind]
        rw [hb]
        refine Prod.ext ?_ rfl
        unfold splitHole setHole resize setHole
        dsimp only
        congr 1
        funext k
        by_cases hki : k=i
        · subst hki
          simp [Ne.symm hji]
        by_cases hkj : k=j
        · subst hkj
          simp [hji]
        · simp [hki,hkj]
      · simp [gaps,gap,splitHole,hji]
    · obtain ⟨hw,hk⟩ := resize_worked h hl hnd (w.hole i).first (first-1)
      rw [if_neg ht,if_neg ht]
      refine ⟨_,[i],by rw [ho],by simpa using hw,?_,hk,.inl le_rfl⟩
      simp [gaps,gap,resize_hole]
  · rw [if_neg hh,if_neg hh]
    by_cases ht : end_≤(w.hole i).last ∧ more
    · obtain ⟨hw,hk⟩ := resize_worked h hl hnd end_ (w.hole i).last
      rw [if_pos ht,if_pos ht]
      refine ⟨_,[i],by rw [ho],by simpa using hw,?_,hk,.inl le_rfl⟩
      simp [gaps,gap,resize_hole]
    obtain ⟨hw,hk⟩ := putHole_worked h hd hu hl
    rw [if_neg ht,if_neg ht]
    refine ⟨_,[],by rw [append_nil],by simpa using hw,rfl,hk,.inl ?_⟩
    rw [putHole_holes]
    omega

/-- `carve` takes a fragment out of the gaps of a row. -/
theorem carve_worked (first end_ : ℕ) (more : Bool) (hap : Apart (w.gaps (hs d))) (hf : first<2^16) (he : end_<2^16)
    (hrm : w.holes < cfg.ip6ReassHoles) :
    ∃ u l,carve cfg w d first end_ more=(u,true) ∧ Worked cfg w u hs d l ∧ u.gaps l=cut first end_ more (w.gaps (hs d)) := by
  have hc := h.chain d hd hu
  have hln := hc.length_le holes_le_none
  -- what a turn needs of the rest of the list: its gaps are apart, and an entry is free or none of them is reached
  have hp := @pass_spec Work Gap none8 holeNext (carveTurn cfg d first end_ more)
    (fun s pre rest => Worked cfg w s hs d (pre++rest) ∧ Apart (s.gaps rest) ∧
      (s.holes < cfg.ip6ReassHoles ∨ ∀ k∈rest,end_≤(s.gap k).first)) gap (Gap.cut first end_ more) ?_ (hs d) []
    (cfg.ip6ReassHoles+1) w (by omega) ⟨.refl h d,hap,.inl hrm⟩
  · obtain ⟨u,l,hlp,⟨hw,-⟩,hg,-⟩ := hp
    refine ⟨u,l,?_,by simpa using hw,hg⟩
    unfold carve
    rw [hc.head_eq,carveLoop_eq]
    exact hlp
  rintro s pre i rest ⟨hw,hap,hrm⟩
  have hl : update hs d (pre++i::rest) d=pre++i::rest := update_self _ _ _
  have hus : (s.row d).used := (hw.rest.used d).trans hu
  have hap' : Apart (s.gaps rest) := (apart_cons.1 hap).2.2
  refine ⟨hw.ok.ne_stop holes_le_none hd (show i∈_ by rw [hl]; simp),hw.ok.next_eq hd hus hl,?_⟩
  unfold carveTurn
  by_cases hr : (s.hole i).last<first ∨ end_≤(s.hole i).first
  · -- out of reach: the hole stands
    refine ⟨s,[i],by rw [if_pos hr,behind_concat],?_,fun _ _ => rfl,by simpa using hw,hap',
      hrm.imp_right fun ha k hk => ha k (mem_cons_of_mem i hk)⟩
    exact (if_pos hr : (s.gap i).cut first end_ more=[s.gap i]).symm
  have hlt := hrm.resolve_right fun ha => hr (.inr (ha i mem_cons_self))
  obtain ⟨v,mid,hcr,hw',hm,hkp,hcn⟩ := carveHole_worked hw.ok hd hus hl hr hf he fun _ _ => hlt
  have hsm : v.gaps rest=s.gaps rest := map_congr_left fun k hk => hkp k (by simp [hk])
  refine ⟨v,mid,by rw [if_neg hr,hcr],hm,hkp,hw.trans h hd hw',by rwa [hsm],?_⟩
  rcases hcn with hle|hin
  · exact .inl (hle.trans_lt hlt)
  · exact .inr fun k hk => by rw [hkp k (by simp [hk])]; exact hap.beyond hin (s.gap k) (mem_map_of_mem hk)

/-- `trim` ends the gaps of a row. -/
theorem trim_worked (end_ : ℕ) (he : end_<2^16) :
    ∃ l,Worked cfg w (trim cfg w d end_) hs d l ∧ (trim cfg w d end_).gaps l=clip end_ (w.gaps (hs d)) := by
  have hc := h.chain d hd hu
  have hln := hc.length_le holes_le_none
  have hp := @pass_spec Work Gap none8 holeNext (trimTurn d end_) (fun s pre rest => Worked cfg w s hs d (pre++rest))
    gap (Gap.clip end_) ?_ (hs d) [] (cfg.ip6ReassHoles+1) w (by omega) (.refl h d)
  · obtain ⟨u,l,hlp,hw,hg,-⟩ := hp
    have hu : trim cfg w d end_=u := by
      unfold trim
      rw [hc.head_eq]
      exact congrArg Prod.fst ((trimLoop_eq _ _ _ _ _ _).trans hlp)
    rw [hu]
    exact ⟨l,by simpa using hw,hg⟩
  intro s pre i rest hw
  have hl : update hs d (pre++i::rest) d=pre++i::rest := update_self _ _ _
  have hus : (s.row d).used := (hw.rest.used d).trans hu
  refine ⟨hw.ok.ne_stop holes_le_none hd (show i∈_ by rw [hl]; simp),hw.ok.next_eq hd hus hl,?_⟩
  unfold trimTurn
  by_cases hb : end_≤(s.hole i).first
  · obtain ⟨hw',hk⟩ := putHole_worked hw.ok hd hus hl
    refine ⟨_,[],by rw [if_pos hb,append_nil],?_,hk,by simpa using hw.trans h hd hw'⟩
    exact (if_pos hb : (s.gap i).clip end_=[]).symm
  -- the hol stands, up to the end
  have hsz : (if end_≤(s.hole i).last then s.setHole i {s.hole i with last := (end_-1)%2^16} else s)=
      s.resize i (s.hole i).first (if end_≤(s.hole i).last then end_-1 else (s.hole i).last) := by
    split_ifs
    · rw [Nat.mod_eq_of_lt (by omega)]
      rfl
    · unfold resize setHole
      rw [update_eq_self]
  obtain ⟨hw',hk⟩ := resize_worked hw.ok hl (hw.ok.kept.nodup_row hd) (s.hole i).first
    (if end_≤(s.hole i).last then end_-1 else (s.hole i).last)
  refine ⟨_,[i],by rw [if_neg hb,hsz,behind_concat],?_,hk,by simpa using hw.trans h hd hw'⟩
  have ho : (s.gap i).clip end_=[⟨(s.hole i).first,if end_≤(s.hole i).last then end_-1 else (s.hole i).last⟩] :=
    if_neg hb
  rw [ho,map_singleton]
  unfold gap
  rw [resize_hole,if_pos rfl]

end Lists

end Holes

end IdemIp.Ip6Reass
