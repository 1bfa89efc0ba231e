import IdemIp.IndexChain
import IdemIp.Config
import IdemIp.Checksum
import IdemIp.StepRun

/-!
# The ARP table and the frames it holds, `arp_table.c`

A row maps a protocol address to a station; a frame that waits for one is held on
the row's list. A frame leaves the table dequeued, once its row is resolved, or
reclaimed, once its row or its own time is up.
-/

namespace IdemIp.ArpTable

section Table

open IndexChain

/-- State of a row, `IdemIpArpState`. -/
inductive State
  | free | pending | stable
deriving DecidableEq

/-- State of a hold, `ArpHoldState`. -/
inductive HoldState
  | free | wait | reclaim
deriving DecidableEq

/-- One row, `ArpEntry`. -/
structure Entry where
  spa : BitVec 32
  /-- When it was last used or refreshed. -/
  (usedMs reqMs : BitVec 32)
  pro : BitVec 16
  sha : Octets
  state : State
  (netif pending tries : ℕ)

/-- A row of zeros, but for the list it does not have. -/
def Entry.blank : Entry := ⟨0,0,0,0,.zero,.free,0,none8,0⟩

/-- One held frame, `ArpPending`. -/
structure Hold where
  (deadlineMs spa : BitVec 32)
  (desc len entry next : ℕ)
  state : HoldState

def Hold.zero : Hold := ⟨0,0,0,0,0,0,.free⟩

/-- Result members of the operand block, `ArpTableIo`. -/
structure Io where
  status : Status
  index : ℕ
  state : State
  netif : ℕ
  ip : BitVec 32
  (desc len : ℕ)
  (merged replyOwed conflict : Bool)
  mac : Option Octets

/-- The unit's borrow. -/
structure Work where
  /-- Whether `clear` has marked it. -/
  ready : Bool
  tickMs : BitVec 32
  held : ℕ
  row : ℕ → Entry
  hold : ℕ → Hold
  io : Io

def Work.setRow (w : Work) (i : ℕ) (e : Entry) : Work := {w with row := Function.update w.row i e}

def Work.setHold (w : Work) (h : ℕ) (p : Hold) : Work := {w with hold := Function.update w.hold h p}

/-- Zero the tables and mark the unit, `idemip_arp_clear`. -/
def clear (w : Work) : Work :=
  ⟨true,0,0,fun _ => {Entry.blank with pending := 0},fun _ => .zero,{w.io with status := .ok}⟩

def Work.status (w : Work) (s : Status) : Work := {w with io := {w.io with status := s}}

def Work.holdNext (w : Work) (h : ℕ) : ℕ := (w.hold h).next

variable (cfg : Config) (w : Work) (pro : BitVec 16) (nowMs : BitVec 32)

/-- Row of an address, `arp_row_find`. -/
def rowFind (spa : BitVec 32) : Option ℕ :=
  firstIndex cfg.arpEntries fun i => (w.row i).state != .free && (w.row i).pro==pro && (w.row i).spa==spa

/-- Frames a row holds, in order. -/
def Work.queue (i : ℕ) : List ℕ := walk w.holdNext cfg.arpPending cfg.arpPending (w.row i).pending

/-- A hold off its row, its descriptor to be handed back. -/
def Hold.orphaned (p : Hold) : Hold := {p with entry := none8,next := none8,state := .reclaim}

/-- Free a row; its frames wait to be reclaimed, `arp_row_free`. -/
def rowFree (i : ℕ) : Work :=
  let q := w.queue cfg i
  {w with
    hold := fun h => if h∈q then (w.hold h).orphaned else w.hold h
    row := Function.update w.row i .blank}

/-- The idle row longest unused, the later of equals. -/
def oldest : Option ℕ :=
  ((List.range cfg.arpEntries).foldl (fun (best : Option ℕ×BitVec 32) i =>
    let age := nowMs-(w.row i).usedMs
    if (w.row i).pending=none8 ∧ best.2≤age then (some i,age) else best) (none,0)).1

/-- Take a row: a free one, or the oldest idle one, `arp_row_take`. -/
def rowTake : Option (Work×ℕ) :=
  match firstIndex cfg.arpEntries fun i => (w.row i).state==.free with
  | some i => some (w,i)
  | none => (oldest cfg w nowMs).map fun i => (rowFree cfg w i,i)

/-- Start a row over for an address, `arp_row_open`. -/
def rowOpen (i : ℕ) (pro : BitVec 16) (spa nowMs : BitVec 32) : Work :=
  w.setRow i {Entry.blank with pro := pro,spa := spa,usedMs := nowMs}

/-- A row refreshed by a station. -/
def Entry.learned (e : Entry) (sha : Octets) (netif : ℕ) (nowMs : BitVec 32) : Entry :=
  {e with sha := sha.padded 6,state := .stable,netif := netif,usedMs := nowMs,reqMs := 0,tries := 0}

/-- Learn a station; the row, and whether it existed, `arp_learn`. -/
def learn (spa : BitVec 32) (sha : Octets) (netif : ℕ) (nowMs : BitVec 32)
    (addAbsent : Bool) : Work×Option ℕ×Bool :=
  if sha 0 &&& 1≠0 then (w,none,false)
  else match rowFind cfg w pro spa with
    | some i => (w.setRow i ((w.row i).learned sha netif nowMs),some i,true)
    | none =>
      if !addAbsent then (w,none,false)
      else match rowTake cfg w nowMs with
        | none => (w,none,false)
        | some (u,i) =>
          let u := rowOpen u i pro spa nowMs
          (u.setRow i ((u.row i).learned sha netif nowMs),some i,false)

/-- Operands of `input`, `ArpInputArgs`. -/
structure InputArgs where
  packet : Octets
  localPa : BitVec 32
  netif : ℕ
  nowMs : BitVec 32

/-- Ethernet and IPv4 in every field that says so, `idemip_arp_is_ethernet_ipv4`. -/
def isEthernetIpv4 (p : Octets) : Bool :=
  p.rd16==1 && (p.drop 2).rd16==0x0800 && p 4==6 && p 5==4

/-- Take a packet, `idemip_arp_input`. -/
def input (a : InputArgs) : Work :=
  let u := {w with io := {w.io with
    status := .err
    merged := false
    replyOwed := false
    conflict := false
    index := none8}}
  if !w.ready || !isEthernetIpv4 a.packet then u
  else
    let target := a.localPa != 0 && (a.packet.drop 24).rd32==a.localPa
    let spa := (a.packet.drop 14).rd32
    let conflict := a.localPa != 0 && spa==a.localPa
    let r := if spa≠0 ∧ conflict=false then
        learn cfg u (a.packet.drop 2).rd16 spa (a.packet.drop 8) a.netif a.nowMs target
      else (u,none,false)
    let io := {r.1.io with
      merged := r.2.2
      conflict := conflict
      replyOwed := target && !conflict && (a.packet.drop 6).rd16==1
      status := .ok}
    {r.1 with io := match r.2.1 with
      | none => io
      | some i => {io with index := i,state := .stable,netif := a.netif}}

/-- Hang a frame behind those of a row, `arp_hold_link`. -/
def holdLink (i h : ℕ) : Work :=
  let u := w.setHold h {w.hold h with next := none8}
  if (u.row i).pending=none8 then u.setRow i {u.row i with pending := h}
  else match tail? u.holdNext cfg.arpPending cfg.arpPending (u.row i).pending with
    | none => u
    | some q => u.setHold q {u.hold q with next := h}

/-- Take a frame off its row's list, `arp_hold_unlink`. -/
def holdUnlink (i h : ℕ) : Work :=
  let cut := fun (u : Work) => u.setHold h {u.hold h with next := none8}
  if (w.row i).pending=none8 then w
  else if (w.row i).pending=h then cut (w.setRow i {w.row i with pending := (w.hold h).next})
  else match pred? w.holdNext cfg.arpPending h cfg.arpPending (w.row i).pending with
    | none => w
    | some q => cut (w.setHold q {w.hold q with next := (w.hold h).next})

/-- Operands of `queue`, `ArpQueueArgs`. -/
structure QueueArgs where
  ip : BitVec 32
  (desc len : ℕ)
  nowMs : BitVec 32

/-- Row a frame waits on: the pending one of its address, or a row opened for it. -/
def rowPending (a : QueueArgs) : Option ℕ → Option (Work×ℕ)
  | some i => some (w,i)
  | none => (rowTake cfg w a.nowMs).map fun r =>
      let u := rowOpen r.1 r.2 0x0800 a.ip a.nowMs
      (u.setRow r.2 {u.row r.2 with state := .pending},r.2)

/-- Hold a frame until its address is resolved, `idemip_arp_queue`. -/
def queue (a : QueueArgs) : Work :=
  let u := {w with io := {w.io with status := .err,index := none8}}
  if !w.ready || a.ip==0 || a.len==0 || decide (1514<a.len) then u
  else
    let found := rowFind cfg w 0x0800 a.ip
    match found.filter fun i => (w.row i).state==.stable with
    | some i => {u with io := {u.io with index := i,state := .stable}}
    | none =>
      match firstIndex cfg.arpPending fun h => (w.hold h).state==.free with
      | none => u.status .busy
      | some h =>
        if cfg.arpPending≤w.held then u.status .busy
        else match rowPending cfg u a found with
          | none => u.status .busy
          | some (v,i) =>
            let v := v.setHold h ⟨a.nowMs+cfg.arpMaxpendingMs,a.ip,a.desc,a.len,i,(v.hold h).next,.wait⟩
            let v := holdLink cfg v i h
            {v with held := v.held+1,io := {v.io with index := i,state := .pending,status := .ok}}

/-- Hand out the first frame of the first resolved row, `idemip_arp_dequeue`. -/
def dequeue : Work :=
  let u := {w with io := {w.io with status := .err,desc := 0,len := 0,index := none8}}
  if !w.ready then u
  else match firstIndex cfg.arpEntries fun i => (w.row i).state==.stable && (w.row i).pending != none8 with
    | none => u.status .busy
    | some i =>
      let h := (w.row i).pending
      let v := (holdUnlink cfg u i h).setHold h .zero
      {v with
        held := v.held-1
        io := {v.io with
          desc := (w.hold h).desc
          len := (w.hold h).len
          ip := (w.hold h).spa
          index := i
          state := .stable
          netif := (w.row i).netif
          mac := some (w.row i).sha
          status := .ok}}

/-- Whether a row has outlived its time. -/
def Entry.stale (e : Entry) (nowMs : BitVec 32) : Bool :=
  e.state != .free && decide ((if e.state=.pending then cfg.arpMaxpendingMs else cfg.arpMaxageMs)≤nowMs-e.usedMs)

/-- Free the rows that have outlived their time, `arp_age_rows`. -/
def ageRows : Work :=
  (List.range cfg.arpEntries).foldl (fun u i => if (u.row i).stale cfg nowMs then rowFree cfg u i else u) w

/-- Give one frame up when its time is over. -/
def expireHold (w : Work) (h : ℕ) : Work :=
  let p := w.hold h
  if p.state≠.wait ∨ ¬nowMs-p.deadlineMs<0x80000000 then w
  else
    let u := if p.entry≠none8 then holdUnlink cfg w p.entry h else w
    u.setHold h {u.hold h with entry := none8,state := .reclaim}

/-- Give up the frames whose time is over, `arp_expire_holds`. -/
def expireHolds : Work := (List.range cfg.arpPending).foldl (expireHold cfg nowMs) w

/-- Whether a request for a row is due. -/
def Entry.asks (e : Entry) (nowMs : BitVec 32) : Bool :=
  e.state==.pending && (e.tries==0 || !decide (nowMs-e.reqMs<1000))

/-- Hand out the first frame given up, or the first request due. -/
def report : Work :=
  match firstIndex cfg.arpPending fun h => (w.hold h).state==.reclaim with
  | some h =>
    {w.setHold h .zero with
      held := w.held-1
      io := {w.io with desc := (w.hold h).desc,len := (w.hold h).len,ip := (w.hold h).spa,status := .ok}}
  | none =>
    match firstIndex cfg.arpEntries fun i => (w.row i).asks nowMs with
    | none => w.status .busy
    | some i =>
      let u := w.setRow i {w.row i with reqMs := nowMs,tries := min ((w.row i).tries+1) 0xFF}
      {u with io := {u.io with
        ip := (w.row i).spa
        index := i
        state := .pending
        netif := (w.row i).netif
        status := .ok}}

/-- Age the table and report one thing to do, `idemip_arp_tick`. -/
def tick : Work :=
  let u := {w with io := {w.io with status := .err,ip := 0,desc := 0,len := 0,index := none8}}
  if !w.ready then u
  else
    let v := if w.tickMs=0 ∨ cfg.arpTmrIntervalMs≤nowMs-w.tickMs then ageRows cfg {u with tickMs := nowMs} nowMs else u
    report cfg (expireHolds cfg v nowMs) nowMs

/-- Forget an address, `idemip_arp_remove`. -/
def remove (spa : BitVec 32) : Work :=
  let u := {w with io := {w.io with status := .err,index := none8}}
  if !w.ready || pro != 0x0800 || spa==0 then u
  else match rowFind cfg w pro spa with
    | none => u
    | some i =>
      let v := rowFree cfg u i
      {v with io := {v.io with index := i,state := .free,status := .ok}}

/-- Operands of `add`, `ArpAddArgs`. -/
structure AddArgs where
  spa : BitVec 32
  sha : Option Octets
  pro : BitVec 16
  netif : ℕ
  nowMs : BitVec 32

/-- Take a triplet the caller trusts, `idemip_arp_add`. -/
def add (a : AddArgs) : Work :=
  let u := {w with io := {w.io with status := .err,index := none8,merged := false}}
  match a.sha with
  | none => u
  | some sha =>
    if !w.ready || a.pro != 0x0800 || a.spa==0 then u
    else
      let r := learn cfg u a.pro a.spa sha a.netif a.nowMs true
      match r.2.1 with
      | none => r.1.status .busy
      | some i =>
        {r.1 with io := {r.1.io with
          index := i
          state := .stable
          netif := (r.1.row i).netif
          merged := r.2.2
          status := .ok}}

/-- Report the station of an address, `idemip_arp_find`. -/
def find (spa : BitVec 32) : Work :=
  let u := {w with io := {w.io with status := .err,mac := none,index := none8,state := .free,netif := 0}}
  if !w.ready || pro != 0x0800 || spa==0 then u
  else match rowFind cfg w pro spa with
    | none => u
    | some i =>
      let v := {u with io := {u.io with index := i,state := (w.row i).state,netif := (w.row i).netif}}
      if (w.row i).state=.pending then v.status .busy
      else {v with io := {v.io with mac := some (w.row i).sha,status := .ok}}

/-- A call with its operands. -/
inductive Call
  | add (a : AddArgs)
  | find (pro : BitVec 16) (spa : BitVec 32)
  | remove (pro : BitVec 16) (spa : BitVec 32)
  | input (a : InputArgs)
  | queue (a : QueueArgs)
  | dequeue
  | tick (nowMs : BitVec 32)

def step : Call → Work
  | .add a => add cfg w a
  | .find pro spa => find cfg w pro spa
  | .remove pro spa => remove cfg w pro spa
  | .input a => input cfg w a
  | .queue a => queue cfg w a
  | .dequeue => dequeue cfg w
  | .tick nowMs => tick cfg w nowMs

end Table

section Lists

open IndexChain Slots List Work Function

/-- What a caller gives and gets back: a descriptor, its octets and the address they wait for. -/
structure Frame where
  (desc len : ℕ)
  ip : BitVec 32
deriving DecidableEq

/-- The frame of a hold. -/
def Hold.frame (p : Hold) : Frame := ⟨p.desc,p.len,p.spa⟩

/-- The frame a call reports. -/
def Io.frame (io : Io) : Frame := ⟨io.desc,io.len,io.ip⟩

/-- The frame a caller queues. -/
def QueueArgs.frame (a : QueueArgs) : Frame := ⟨a.desc,a.len,a.ip⟩

/-- The hold waits on a row. -/
def Work.waits (w : Work) (h : ℕ) : Bool := (w.hold h).state==.wait

/-- The row is in use. -/
def Work.live (w : Work) (i : ℕ) : Bool := (w.row i).state != .free

/-- First frame of a row. -/
def Work.first (w : Work) (i : ℕ) : ℕ := (w.row i).pending

theorem setHold_self (w : Work) (h : ℕ) (p : Hold) : (w.setHold h p).hold h=p := update_self _ _ _

variable {h : ℕ}

theorem setHold_of_ne (w : Work) {k : ℕ} (p : Hold) (hk : k≠h) : (w.setHold h p).hold k=w.hold k :=
  update_of_ne hk _ _

variable (cfg : Config)

/-- The frames that wait stand once on the lists of the rows they name, and no frame held is empty. -/
structure Linked (w : Work) (lists : ℕ → List ℕ) : Prop where
  /-- The lists of the rows in use are threaded through the holds that wait. -/
  threaded : ∃ n,Threaded cfg.arpEntries cfg.arpPending none8 w.waits n w.holdNext w.first w.live lists
  /-- A hold names the row whose list it is on. -/
  entry : ∀ i < cfg.arpEntries,∀ h∈lists i,(w.hold h).entry=i
  len : ∀ h,(w.hold h).state≠.free → (w.hold h).frame.len≠0

/-- Every hold keeps its frame, or stays free. -/
structure Same (w w' : Work) : Prop where
  frame : ∀ h,(w'.hold h).frame=(w.hold h).frame
  free : ∀ h,(w'.hold h).state=.free ↔ (w.hold h).state=.free

/-- Frames are taken off the lists at most, and every hold keeps its own. -/
def Sheds (w w' : Work) : Prop :=
  ∀ lists,Linked cfg w lists → ∃ lists',Linked cfg w' lists' ∧ (∀ i,(lists' i).Sublist (lists i)) ∧ Same w w'

variable {cfg} {w w' w'' : Work} {lists : ℕ → List ℕ}

theorem pending_le_none (cfg : Config) : cfg.arpPending≤none8 := Nat.le_of_lt cfg.arpPending_lt

theorem Same.refl (w : Work) : Same w w := ⟨fun _ => rfl,fun _ => Iff.rfl⟩

theorem Same.trans (h : Same w w') (h' : Same w' w'') : Same w w'' :=
  ⟨fun k => (h'.frame k).trans (h.frame k),fun k => (h'.free k).trans (h.free k)⟩

theorem Same.len (h : Same w w') (hl : Linked cfg w lists) (k : ℕ) (hk : (w'.hold k).state≠.free) :
    (w'.hold k).frame.len≠0 := by
  rw [h.frame k]
  exact hl.len k fun hf => hk ((h.free k).2 hf)

theorem Sheds.refl (w : Work) : Sheds cfg w w := fun lists h => ⟨lists,h,fun _ => List.Sublist.refl _,Same.refl w⟩

theorem Sheds.trans (h : Sheds cfg w w') (h' : Sheds cfg w' w'') : Sheds cfg w w'' := by
  intro lists hl
  obtain ⟨mid,hm,hsb,hs⟩ := h lists hl
  obtain ⟨last,hls,hsub',hsame'⟩ := h' mid hm
  exact ⟨last,hls,fun i => (hsub' i).trans (hsb i),hs.trans hsame'⟩

variable {i : ℕ}

theorem Linked.queue (h : Linked cfg w lists) (hi : i < cfg.arpEntries) (hu : w.live i) : w.queue cfg i=lists i := by
  obtain ⟨n,ht⟩ := h.threaded
  exact ht.walk (pending_le_none cfg) hi hu

variable {e : Entry}

/-- A row in use is rewritten but for its list, or a free one is taken. -/
theorem sheds_setRow (hi : i < cfg.arpEntries) (he : e.state≠.free)
    (hl : e.pending=if w.live i then (w.row i).pending else none8) : Sheds cfg w (w.setRow i e) := by
  intro lists h
  obtain ⟨n,ht⟩ := h.threaded
  have hlv : (w.setRow i e).live i := by simp [live,setRow,he]
  have hlive' : ∀ k,k≠i → (w.setRow i e).live k=w.live k := fun k hk => by simp [live,setRow,hk]
  have hfirst' : ∀ k,k≠i → (w.setRow i e).first k=w.first k := fun k hk => by simp [first,setRow,hk]
  have hf : (w.setRow i e).first i=e.pending := by simp [first,setRow]
  have hc : Chain w.holdNext cfg.arpPending none8 e.pending (lists i) := by
    cases hu : w.live i with
    | true =>
      rw [hl,hu,if_pos rfl]
      exact ht.chain i hi hu
    | false =>
      rw [hl,hu,if_neg nofun,ht.free i hi hu]
      exact Chain.nil
  have hkp : Kept cfg.arpEntries cfg.arpPending w.waits n (update lists i (lists i)) := by
    rw [update_eq_self]
    exact ht.kept
  have hn := ht.rethread hi hlive' hfirst' hlv hkp (hf ▸ hc) (fun _ _ _ => rfl)
  rw [update_eq_self] at hn
  exact ⟨lists,⟨⟨n,hn⟩,h.entry,h.len⟩,fun _ => List.Sublist.refl _,⟨fun _ => rfl,fun _ => Iff.rfl⟩⟩

theorem rowFree_sheds (hi : i < cfg.arpEntries) (hu : w.live i) : Sheds cfg w (rowFree cfg w i) := by
  intro lists h
  obtain ⟨n,ht⟩ := h.threaded
  have hq := h.queue hi hu
  have hh : ∀ k,(rowFree cfg w i).hold k=if k∈lists i then (w.hold k).orphaned else w.hold k := by
    intro k
    rw [←hq]
    rfl
  have hs : Same w (rowFree cfg w i) := by
    constructor
    · intro k
      rw [hh]
      split <;> rfl
    · intro k
      rw [hh]
      split
      next hk =>
        have hw := (ht.kept.used_of_mem hi hk).2
        simp only [waits,beq_iff_eq] at hw
        simp [Hold.orphaned,hw]
      next => exact Iff.rfl
  have hus : ∀ k < cfg.arpPending,(rowFree cfg w i).waits k=if k∈lists i then false else w.waits k := by
    intro k _
    simp only [waits,hh]
    split <;> rfl
  have hn : ∀ k,k∉lists i → (rowFree cfg w i).holdNext k=w.holdNext k := by
    intro k hk
    simp only [holdNext,hh,if_neg hk]
  have hlive' : ∀ k,k≠i → (rowFree cfg w i).live k=w.live k := fun k hk => by simp [rowFree,live,hk]
  have hfirst' : ∀ k,k≠i → (rowFree cfg w i).first k=w.first k := fun k hk => by simp [rowFree,first,hk]
  have hl : (rowFree cfg w i).live i=false := by simp [rowFree,live,Entry.blank]
  have hnw := ht.close hi hlive' hfirst' hl hus hn
  refine ⟨_,⟨⟨_,hnw⟩,fun k hk p hp => ?_,hs.len h⟩,fun k => ?_,hs⟩
  · by_cases hki : k=i
    · rw [hki,update_self] at hp
      cases hp
    · rw [update_of_ne hki] at hp
      rw [hh,if_neg fun hpi => hki (ht.kept.row_unique hk hi hp hpi)]
      exact h.entry k hk p hp
  · by_cases hki : k=i
    · rw [hki,update_self]
      exact nil_sublist _
    · rw [update_of_ne hki]

/-- A hold but for its link. -/
def Hold.bare (p : Hold) : Hold := {p with next := 0}

variable {p : Hold}

theorem Hold.of_bare {q : Hold} (h : p.bare=q.bare) : p.state=q.state ∧ p.frame=q.frame ∧ p.entry=q.entry := by
  have hs : p.bare.state=q.bare.state := by rw [h]
  have hf : p.bare.frame=q.bare.frame := by rw [h]
  have he : p.bare.entry=q.bare.entry := by rw [h]
  exact ⟨hs,hf,he⟩

theorem bare_relink (w : Work) (q n k : ℕ) : ((w.setHold q {w.hold q with next := n}).hold k).bare=(w.hold k).bare := by
  by_cases hk : k=q
  · rw [hk]
    simp only [setHold,update_self,Hold.bare]
  · simp only [setHold,update_of_ne hk]

theorem holdUnlink_bare (w : Work) (i h k : ℕ) : ((holdUnlink cfg w i h).hold k).bare=(w.hold k).bare := by
  unfold holdUnlink
  extract_lets cut
  split
  · rfl
  split
  · exact bare_relink _ h _ k
  split
  next => rfl
  next q _ => exact (bare_relink _ h _ k).trans (bare_relink w q _ k)

theorem holdUnlink_row {w : Work} {i h k : ℕ} :
    (holdUnlink cfg w i h).live k=w.live k ∧ (k≠i → (holdUnlink cfg w i h).first k=w.first k) := by
  unfold holdUnlink
  extract_lets cut
  split
  · exact ⟨rfl,fun _ => rfl⟩
  split
  · by_cases hk : k=i
    · simp [cut,live,setHold,setRow,hk]
      rfl
    · simp [cut,live,first,setHold,setRow,hk]
  split <;> exact ⟨rfl,fun _ => rfl⟩

theorem holdUnlink_head (hh : h≠none8) (hf : w.first i=h) :
    (holdUnlink cfg w i h).first i=w.holdNext h ∧ ∀ k,k≠h → (holdUnlink cfg w i h).holdNext k=w.holdNext k := by
  have hf' : (w.row i).pending=h := hf
  unfold holdUnlink
  rw [if_neg (by rwa [hf']),if_pos hf']
  exact ⟨by simp [first,setHold,setRow,holdNext],fun k hk => by simp [setHold,setRow,holdNext,hk]⟩

theorem holdUnlink_after {q : ℕ} (hn : w.first i≠none8) (hf : w.first i≠h)
    (hp : pred? w.holdNext cfg.arpPending h cfg.arpPending (w.first i)=some q) (hq : q≠h) :
    (holdUnlink cfg w i h).first i=w.first i ∧ (holdUnlink cfg w i h).holdNext q=w.holdNext h ∧
      ∀ k,k≠h → k≠q → (holdUnlink cfg w i h).holdNext k=w.holdNext k := by
  have hp' : pred? w.holdNext cfg.arpPending h cfg.arpPending (w.row i).pending=some q := hp
  unfold holdUnlink
  rw [if_neg (by exact hn),if_neg (by exact hf),hp']
  exact ⟨rfl,by simp [setHold,holdNext,hq],fun k hk hkq => by simp [setHold,holdNext,hk,hkq]⟩

theorem Linked.unlink (hl : Linked cfg w lists) (hi : i < cfg.arpEntries) (hu : w.live i)
    (hh : h∈lists i) (hp : p.state≠.wait) (hle : p.state≠.free → p.frame.len≠0) :
    Linked cfg ((holdUnlink cfg w i h).setHold h p) (update lists i ((lists i).erase h)) := by
  obtain ⟨n,ht⟩ := hl.threaded
  have hs := pending_le_none cfg
  have hlt := (ht.kept.used_of_mem hi hh).1
  have hne : w.first i≠none8 := fun he =>
    ne_nil_of_mem hh (((ht.chain i hi hu).nil_iff hs).1 (he ▸ hs))
  have hhl : ∀ k,k≠h → _ := fun k hk => setHold_of_ne (holdUnlink cfg w i h) p hk
  have hsl := setHold_self (holdUnlink cfg w i h) h p
  have hkp : ∀ k,k≠h → _ := fun k hk => Hold.of_bare ((congrArg Hold.bare (hhl k hk)).trans (holdUnlink_bare w i h k))
  have hln : ∀ k,k≠h → ((holdUnlink cfg w i h).setHold h p).holdNext k=(holdUnlink cfg w i h).holdNext k := fun k hk =>
    congrArg Hold.next (hhl k hk)
  refine ⟨⟨n-1,ht.unlink hs hi hu hh (fun k => (holdUnlink_row).1) (fun k => (holdUnlink_row).2)
    (fun k _ => ?_) (fun hf => ?_) fun q hf hpr hq => ?_⟩,fun k hk q hq => ?_,fun k hk => ?_⟩
  · by_cases hk : k=h
    · rw [hk,update_self]
      simpa only [waits,hsl,beq_eq_false_iff_ne] using hp
    · rw [update_of_ne hk]
      rw [waits,(hkp k hk).1,waits]
  · obtain ⟨hfr,hn⟩ := holdUnlink_head (by omega) hf
    exact ⟨hfr,fun k _ hk => (hln k hk).trans (hn k hk)⟩
  · obtain ⟨hfr,hq',hn⟩ := holdUnlink_after hne hf hpr hq
    exact ⟨hfr,(hln q hq).trans hq',fun k _ hk hkq => (hln k hk).trans (hn k hk hkq)⟩
  · have hqi : q∈lists k ∧ q≠h := by
      by_cases hki : k=i
      · rw [hki,update_self] at hq
        rw [hki]
        exact ⟨mem_of_mem_erase hq,fun he => (ht.kept.nodup_row hi).not_mem_erase (he ▸ hq)⟩
      · rw [update_of_ne hki] at hq
        exact ⟨hq,fun he => hki (ht.kept.row_unique hk hi (he ▸ hq) hh)⟩
    exact (hkp q hqi.2).2.2.trans (hl.entry k hk q hqi.1)
  · by_cases hkh : k=h
    · rw [hkh,hsl] at hk ⊢
      exact hle hk
    · obtain ⟨hst,hframe,-⟩ := hkp k hkh
      rw [hframe]
      exact hl.len k fun hf => hk (hst.trans hf)

theorem holdLink_bare (w : Work) (i h k : ℕ) : ((holdLink cfg w i h).hold k).bare=(w.hold k).bare := by
  have hf := bare_relink w h none8 k
  unfold holdLink
  extract_lets p u
  split
  · exact hf
  split
  · exact hf
  next q _ => exact (bare_relink u q h k).trans hf

theorem holdLink_row {w : Work} {i h k : ℕ} :
    (holdLink cfg w i h).live k=w.live k ∧ (k≠i → (holdLink cfg w i h).first k=w.first k) := by
  unfold holdLink
  extract_lets x u
  split
  · by_cases hk : k=i
    · simp [u,live,setHold,setRow,hk]
      rfl
    · simp [u,live,first,setHold,setRow,hk]
  split <;> exact ⟨rfl,fun _ => rfl⟩

theorem holdLink_empty (hn : w.first i=none8) : (holdLink cfg w i h).first i=h ∧ (holdLink cfg w i h).holdNext h=none8 ∧
    ∀ k,k≠h → (holdLink cfg w i h).holdNext k=w.holdNext k := by
  have hn' : (w.row i).pending=none8 := hn
  have heq : holdLink cfg w i h=(w.setHold h {w.hold h with next := none8}).setRow i {w.row i with pending := h} := by
    exact if_pos hn'
  rw [heq]
  exact ⟨by simp [first,setHold,setRow],by simp [setHold,setRow,holdNext],fun k hk => by simp [setHold,setRow,holdNext,hk]⟩

theorem holdLink_behind {q : ℕ} (hn : w.first i≠none8) (hq : q≠h)
    (ht : tail? (w.setHold h {w.hold h with next := none8}).holdNext cfg.arpPending cfg.arpPending (w.first i)=some q) :
    (holdLink cfg w i h).first i=w.first i ∧ (holdLink cfg w i h).holdNext h=none8 ∧
      (holdLink cfg w i h).holdNext q=h ∧ ∀ k,k≠h → k≠q → (holdLink cfg w i h).holdNext k=w.holdNext k := by
  unfold holdLink
  extract_lets x u
  have hn' : ¬(u.row i).pending=none8 := hn
  have ht' : tail? u.holdNext cfg.arpPending cfg.arpPending (u.row i).pending=some q := ht
  rw [if_neg hn',ht']
  exact ⟨rfl,by simp [u,x,setHold,holdNext,Ne.symm hq],by simp [setHold,holdNext],
    fun k hk hkq => by simp [u,setHold,holdNext,hk,hkq]⟩

/-- A frame put into a free hold and hung behind the list of a row. -/
theorem Linked.link (hl : Linked cfg w lists) (hi : i < cfg.arpEntries) (hu : w.live i)
    (hh : h < cfg.arpPending) (hfr : (w.hold h).state=.free) (hp : p.state=.wait) (he : p.entry=i) (hln : p.frame.len≠0) :
    Linked cfg (holdLink cfg (w.setHold h p) i h) (update lists i (lists i++[h])) := by
  obtain ⟨n,ht⟩ := hl.threaded
  have hs := pending_le_none cfg
  have hw : w.waits h=false := by simp [waits,hfr]
  have hof : ∀ k < cfg.arpEntries,h∉lists k := fun k hk hm => by
    have := (ht.kept.used_of_mem hk hm).2
    rw [hw] at this
    cases this
  have hst : ∀ k,k≠h → _ := fun k hk => setHold_of_ne w p hk
  have hsl := setHold_self w h p
  have ho : ∀ k,w.waits k → k≠h := by
    rintro k hk rfl
    rw [hw] at hk
    cases hk
  have hkp := fun k => Hold.of_bare (@holdLink_bare cfg (w.setHold h p) i h k)
  have hmd : ∀ k,k≠h → ((w.setHold h p).setHold h {(w.setHold h p).hold h with next := none8}).holdNext k=w.holdNext k :=
    fun k hk => by simp [setHold,holdNext,hk]
  refine ⟨⟨n+1,ht.hang hs hi hu hh hw (fun k => (holdLink_row).1) (fun k => (holdLink_row).2)
    (fun k _ => ?_) hmd (fun hge => ?_) fun q hlt htl hq => ?_⟩,fun k hk q hq => ?_,fun k hk => ?_⟩
  · rw [waits,(hkp k).1]
    by_cases hkh : k=h
    · rw [hkh,update_self,hsl,hp]
      rfl
    · rw [update_of_ne hkh,hst k hkh,waits]
  · have hc := ht.chain i hi hu
    rw [(hc.nil_iff hs).1 hge] at hc
    obtain ⟨hf,hls,hn⟩ : (holdLink cfg (w.setHold h p) i h).first i=h ∧ _ := holdLink_empty hc
    exact ⟨hf,hls,fun k hk => (hn k (ho k hk)).trans (congrArg Hold.next (hst k (ho k hk)))⟩
  · obtain ⟨hf,hls,hq',hn⟩ := holdLink_behind (w := w.setHold h p) (hlt.trans_le hs).ne hq htl
    exact ⟨hf,hls,hq',fun k hk hkq => (hn k (ho k hk) hkq).trans (congrArg Hold.next (hst k (ho k hk)))⟩
  · rw [(hkp q).2.2]
    by_cases hqh : q=h
    · rw [hqh,hsl,he]
      by_contra hki
      rw [update_of_ne (Ne.symm hki),hqh] at hq
      exact hof k hk hq
    rw [hst q hqh]
    by_cases hki : k=i
    · rw [hki,update_self] at hq
      rw [hki]
      exact hl.entry i hi q ((mem_append.1 hq).resolve_right fun hm => hqh (mem_singleton.1 hm))
    · rw [update_of_ne hki] at hq
      exact hl.entry k hk q hq
  · rw [(hkp k).1] at hk
    rw [(hkp k).2.1]
    by_cases hkh : k=h
    · rw [hkh,hsl]
      exact hln
    · rw [hst k hkh] at hk ⊢
      exact hl.len k hk

theorem sheds_of_eq (hr : w'.row=w.row) (hh : w'.hold=w.hold) : Sheds cfg w w' := by
  obtain ⟨ready,tickMs,held,row,hold,io⟩ := w
  obtain ⟨ready',tickMs',held',row',hold',io'⟩ := w'
  subst hr hh
  exact fun lists h => ⟨lists,⟨h.threaded,h.entry,h.len⟩,fun _ => List.Sublist.refl _,⟨fun _ => rfl,fun _ => Iff.rfl⟩⟩

theorem expireHold_sheds {now : BitVec 32} {w : Work} (hh : h < cfg.arpPending) : Sheds cfg w (expireHold cfg now w h) := by
  by_cases hd : (w.hold h).state≠.wait ∨ ¬now-(w.hold h).deadlineMs<0x80000000
  · have heq : expireHold cfg now w h=w := if_pos hd
    rw [heq]
    exact Sheds.refl w
  intro lists hl
  obtain ⟨n,ht⟩ := hl.threaded
  have hw : (w.hold h).state=.wait := by
    by_contra hne
    exact hd (.inl hne)
  have hm : h∈flat cfg.arpEntries lists := (ht.kept.mem h).2 ⟨hh,by simp [waits,hw]⟩
  obtain ⟨i,hi,hhi⟩ := mem_flat.1 hm
  have he : (w.hold h).entry=i := hl.entry i hi h hhi
  have hne : (w.hold h).entry≠none8 := by
    rw [he]
    exact (hi.trans cfg.arpEntries_lt).ne
  have hu : w.live i := by
    by_contra hf
    rw [ht.free i hi (Bool.eq_false_iff.2 hf)] at hhi
    cases hhi
  have heq : expireHold cfg now w h=(holdUnlink cfg w i h).setHold h
      {(holdUnlink cfg w i h).hold h with entry := none8,state := .reclaim} := by
    dsimp only [expireHold]
    rw [if_neg hd,if_pos hne,he]
  rw [heq]
  have hk := fun k => Hold.of_bare (@holdUnlink_bare cfg w i h k)
  have hln : ((holdUnlink cfg w i h).hold h).frame.len≠0 := by
    rw [(hk h).2.1]
    exact hl.len h (by simp [hw])
  refine ⟨_,hl.unlink hi hu hhi (by simp) fun _ => hln,fun k => ?_,fun k => ?_,fun k => ?_⟩
  · by_cases hki : k=i
    · rw [hki,update_self]
      exact erase_sublist
    · rw [update_of_ne hki]
  · by_cases hkh : k=h
    · rw [hkh,←(hk h).2.1,setHold_self]
      rfl
    · rw [setHold_of_ne _ _ hkh,(hk k).2.1]
  · by_cases hkh : k=h
    · rw [hkh,hw,setHold_self]
      simp
    · rw [setHold_of_ne _ _ hkh,(hk k).1]

theorem sheds_foldl {f : Work → ℕ → Work} (l : List ℕ) (hf : ∀ u,∀ k∈l,Sheds cfg u (f u k)) (w : Work) :
    Sheds cfg w (l.foldl f w) := by
  induction l generalizing w with
  | nil => exact Sheds.refl w
  | cons k l ih =>
    have hr := ih (fun u j hj => hf u j (mem_cons_of_mem k hj)) (f w k)
    exact (hf w k mem_cons_self).trans hr

theorem expireHolds_sheds {w : Work} {now : BitVec 32} : Sheds cfg w (expireHolds cfg w now) :=
  sheds_foldl _ (fun _ _ hk => expireHold_sheds (mem_range.1 hk)) w

theorem ageRows_sheds {w : Work} {now : BitVec 32} : Sheds cfg w (ageRows cfg w now) := by
  refine sheds_foldl _ (fun u k hk => ?_) w
  split
  next hs =>
    simp only [Entry.stale,Bool.and_eq_true] at hs
    exact rowFree_sheds (mem_range.1 hk) hs.1
  next => exact Sheds.refl u

variable {now : BitVec 32}

theorem oldest_lt (h : oldest cfg w now=some i) : i < cfg.arpEntries := by
  have hf : ∀ (l : List ℕ) (best : Option ℕ×BitVec 32),(∀ k∈best.1,k < cfg.arpEntries) → (∀ k∈l,k < cfg.arpEntries) →
      ∀ k∈(l.foldl (fun (best : Option ℕ×BitVec 32) i =>
        let age := now-(w.row i).usedMs
        if (w.row i).pending=none8 ∧ best.2≤age then (some i,age) else best) best).1,k < cfg.arpEntries := by
    intro l
    induction l with
    | nil => exact fun best hb _ => hb
    | cons j l ih =>
      intro best hb hl
      refine ih _ ?_ fun k hk => hl k (mem_cons_of_mem j hk)
      dsimp only
      split
      · rintro k ⟨⟩
        exact hl j mem_cons_self
      · exact hb
  exact hf (range cfg.arpEntries) (none,0) (nofun) (fun k hk => mem_range.1 hk) i h

theorem rowTake_sheds {u : Work} (h : rowTake cfg w now=some (u,i)) :
    i < cfg.arpEntries ∧ u.live i=false ∧ Sheds cfg w u := by
  unfold rowTake at h
  split at h
  next k hk =>
    cases h
    obtain ⟨hf,hlt,-⟩ := firstIndex_some.1 hk
    refine ⟨hlt,?_,Sheds.refl w⟩
    simpa [live] using hf
  next hn =>
    obtain ⟨k,hk,heq⟩ := Option.map_eq_some_iff.1 h
    cases heq
    have hlt := oldest_lt hk
    have hb := firstIndex_none.1 hn i hlt
    have hu : w.live i := by simpa [live] using hb
    refine ⟨hlt,?_,rowFree_sheds hlt hu⟩
    simp [rowFree,live,Entry.blank]

theorem rowOpen_sheds {pro : BitVec 16} {spa : BitVec 32} (hi : i < cfg.arpEntries)
    (hu : w.live i=false) (he : e.state≠.free) (hp : e.pending=none8) :
    Sheds cfg w ((rowOpen w i pro spa now).setRow i e) := by
  have heq : (rowOpen w i pro spa now).setRow i e=w.setRow i e := by
    simp only [rowOpen,setRow,update_idem]
  rw [heq]
  refine sheds_setRow hi he ?_
  rw [hu,hp]
  rfl

theorem learn_sheds {w : Work} {pro : BitVec 16} {spa : BitVec 32} {sha : Octets} {netif : ℕ} {now : BitVec 32}
    {addAbsent : Bool} : Sheds cfg w (learn cfg w pro spa sha netif now addAbsent).1 := by
  unfold learn
  split
  · exact Sheds.refl w
  split
  next i hi =>
    obtain ⟨hm,hlt,-⟩ := firstIndex_some.1 hi
    simp only [Bool.and_eq_true] at hm
    have hu : w.live i := hm.1.1
    refine sheds_setRow hlt (by simp [Entry.learned]) ?_
    rw [hu]
    rfl
  next =>
    split
    · exact Sheds.refl w
    split
    · exact Sheds.refl w
    next u i ht =>
      obtain ⟨hlt,hu,hs⟩ := rowTake_sheds ht
      refine hs.trans (rowOpen_sheds hlt hu (by simp [Entry.learned]) ?_)
      simp [Entry.learned,rowOpen,setRow,Entry.blank]

end Lists

section Runs

open IndexChain Slots StepRun List Work Bool Function

variable (cfg : Config) (i : ℕ) (w : Work)

/-- The list of a row; a free row has none. -/
def Work.line (i : ℕ) : List ℕ := if w.live i then w.queue cfg i else []

/-- The frames that wait on a row, in order. -/
def Work.waiting (i : ℕ) : List Frame := (w.line cfg i).map fun h => (w.hold h).frame

/-- The frames held, by hold. -/
def Work.stock : List Frame :=
  (List.range cfg.arpPending).filterMap fun h => if (w.hold h).state=.free then none else some (w.hold h).frame

def accepted : Call → List Frame
  | .queue a => if (queue cfg w a).io.status=.ok then [a.frame] else []
  | _ => []

/-- Frames a call accepts for a row. -/
def acceptedFor : Call → List Frame
  | .queue a => if (queue cfg w a).io.status=.ok ∧ (queue cfg w a).io.index=i then [a.frame] else []
  | _ => []

/-- Frames a call hands back: those it dequeues, and those it reports with a length. -/
def handed : Call → List Frame
  | .dequeue => if (dequeue cfg w).io.status=.ok then [(dequeue cfg w).io.frame] else []
  | .tick nowMs => if (tick cfg w nowMs).io.status=.ok ∧ (tick cfg w nowMs).io.len≠0 then [(tick cfg w nowMs).io.frame] else []
  | _ => []

/-- Frames a call hands out from a row. -/
def handedFrom : Call → List Frame
  | .dequeue => if (dequeue cfg w).io.status=.ok ∧ (dequeue cfg w).io.index=i then [(dequeue cfg w).io.frame] else []
  | _ => []

/-- What one call does to the frames held. -/
structure Passed (w : Work) (c : Call) (lists lists' : ℕ → List ℕ) : Prop where
  linked : Linked cfg (step cfg w c) lists'
  stock : ((step cfg w c).stock cfg++handed cfg w c).Perm (w.stock cfg++accepted cfg w c)
  order : ∀ i < cfg.arpEntries,(handedFrom cfg i w c++(lists' i).map fun h => ((step cfg w c).hold h).frame).Sublist
      (((lists i).map fun h => (w.hold h).frame)++acceptedFor cfg i w c)

variable {cfg} {w w' : Work} {lists : ℕ → List ℕ}

theorem Linked.line (h : Linked cfg w lists) {i : ℕ} (hi : i < cfg.arpEntries) : w.line cfg i=lists i := by
  obtain ⟨n,ht⟩ := h.threaded
  unfold Work.line
  split
  next hu => exact h.queue hi hu
  next hf => exact (ht.free i hi (eq_false_iff.2 hf)).symm

theorem Same.stock (h : Same w w') : w'.stock cfg=w.stock cfg := by
  refine filterMap_congr fun k _ => ?_
  simp only [h.frame k,h.free k]

theorem Same.order (h : Same w w') {l l' : List ℕ} (hs : l'.Sublist l) :
    (l'.map fun k => (w'.hold k).frame).Sublist (l.map fun k => (w.hold k).frame) := by
  simp only [h.frame]
  exact hs.map _

theorem Sheds.passed {c : Call} (h : Sheds cfg w (step cfg w c)) (hl : Linked cfg w lists) (hin : accepted cfg w c=[])
    (hfr : ∀ i,acceptedFor cfg i w c=[]) (ho : handed cfg w c=[]) (hf : ∀ i,handedFrom cfg i w c=[]) :
    ∃ lists',Passed cfg w c lists lists' := by
  obtain ⟨lists',hl',hsb,hs⟩ := h lists hl
  refine ⟨lists',hl',?_,fun i _ => ?_⟩
  · rw [hin,ho,hs.stock]
  · rw [hfr,hf,nil_append,append_nil]
    exact hs.order (hsb i)

theorem add_sheds {w : Work} {a : AddArgs} : Sheds cfg w (add cfg w a) := by
  unfold add
  extract_lets src u
  have hu : Sheds cfg w u := sheds_of_eq rfl rfl
  split
  · exact hu
  next sha _ =>
    split
    · exact hu
    extract_lets r
    have hr : Sheds cfg w r.1 := hu.trans (learn_sheds)
    split <;> exact hr.trans (sheds_of_eq rfl rfl)

theorem find_sheds {w : Work} {pro : BitVec 16} {spa : BitVec 32} : Sheds cfg w (find cfg w pro spa) := by
  unfold find
  extract_lets src u
  split
  · exact sheds_of_eq rfl rfl
  split
  · exact sheds_of_eq rfl rfl
  extract_lets v
  split <;> exact sheds_of_eq rfl rfl

theorem remove_sheds {w : Work} {pro : BitVec 16} {spa : BitVec 32} : Sheds cfg w (remove cfg w pro spa) := by
  unfold remove
  extract_lets src u
  have hu : Sheds cfg w u := sheds_of_eq rfl rfl
  split
  · exact hu
  split
  · exact hu
  next i hi =>
    obtain ⟨hm,hlt,-⟩ := firstIndex_some.1 hi
    simp only [and_eq_true] at hm
    have hl : u.live i := hm.1.1
    extract_lets v
    exact (hu.trans (rowFree_sheds hlt hl)).trans (sheds_of_eq rfl rfl)

theorem input_sheds {w : Work} {a : InputArgs} : Sheds cfg w (input cfg w a) := by
  unfold input
  extract_lets src u target spa conflict r
  have hu : Sheds cfg w u := sheds_of_eq rfl rfl
  split
  · exact hu
  have hr : Sheds cfg w r.1 := by
    simp only [r]
    split
    · exact hu.trans (learn_sheds)
    · exact hu
  exact hr.trans (sheds_of_eq rfl rfl)

theorem rowPending_sheds {a : QueueArgs} {found : Option ℕ} {v : Work} {i : ℕ}
    (hf : ∀ k∈found,k < cfg.arpEntries ∧ w.live k) (h : rowPending cfg w a found=some (v,i)) :
    i < cfg.arpEntries ∧ v.live i ∧ Sheds cfg w v := by
  cases found with
  | some k =>
    cases h
    exact ⟨(hf i rfl).1,(hf i rfl).2,Sheds.refl w⟩
  | none =>
    obtain ⟨r,hr,heq⟩ := Option.map_eq_some_iff.1 h
    obtain ⟨u,k⟩ := r
    cases heq
    obtain ⟨hlt,hu,hs⟩ := rowTake_sheds hr
    refine ⟨hlt,by simp [live,setRow],hs.trans (rowOpen_sheds hlt hu (by simp) ?_)⟩
    simp [rowOpen,setRow,Entry.blank]

/-- A frame is refused, or put into a free hold and hung behind the list of a row in use. -/
theorem queue_spec (w : Work) (a : QueueArgs) : ((queue cfg w a).io.status≠.ok ∧ Sheds cfg w (queue cfg w a)) ∨
    ∃ v i h n,Sheds cfg w v ∧ i < cfg.arpEntries ∧ v.live i ∧ h < cfg.arpPending ∧ (w.hold h).state=.free ∧ a.len≠0 ∧
      (queue cfg w a).row=(holdLink cfg (v.setHold h ⟨a.nowMs+cfg.arpMaxpendingMs,a.ip,a.desc,a.len,i,n,.wait⟩) i h).row ∧
      (queue cfg w a).hold=(holdLink cfg (v.setHold h ⟨a.nowMs+cfg.arpMaxpendingMs,a.ip,a.desc,a.len,i,n,.wait⟩) i h).hold ∧
      (queue cfg w a).io.status=.ok ∧ (queue cfg w a).io.index=i := by
  unfold queue
  extract_lets src u found
  have hu : Sheds cfg w u := sheds_of_eq rfl rfl
  have hb : (u.status .busy).io.status≠.ok ∧ Sheds cfg w (u.status .busy) := ⟨by simp [status],sheds_of_eq rfl rfl⟩
  split
  · exact .inl ⟨by simp [u],hu⟩
  next ha =>
    split
    · exact .inl ⟨by simp [u],sheds_of_eq rfl rfl⟩
    split
    · exact .inl hb
    next h hh =>
      split
      · exact .inl hb
      split
      · exact .inl hb
      next v i hr =>
        obtain ⟨hfr,hlt,-⟩ := firstIndex_some.1 hh
        have hf : ∀ k∈found,k < cfg.arpEntries ∧ u.live k := by
          intro k hk
          obtain ⟨hm,hkl,-⟩ := firstIndex_some.1 hk
          simp only [and_eq_true] at hm
          exact ⟨hkl,hm.1.1⟩
        obtain ⟨hi,hl,hs⟩ := rowPending_sheds hf hr
        have hln : a.len≠0 := by
          intro h0
          simp [h0] at ha
        exact .inr ⟨v,i,h,(v.hold h).next,hu.trans hs,hi,hl,hlt,by simpa using hfr,hln,rfl,rfl,rfl,rfl⟩

/-- One hold is free in one of two tables and not in the other, and the others are the same. -/
theorem stock_take {h : ℕ} (hh : h < cfg.arpPending) (hfr : (w'.hold h).state=.free) (hb : (w.hold h).state≠.free)
    (hf : ∀ k,k≠h → (w'.hold k).frame=(w.hold k).frame) (hs : ∀ k,k≠h → (w'.hold k).state=(w.hold k).state) :
    (w.stock cfg).Perm ((w.hold h).frame::w'.stock cfg) := by
  refine filterMap_range_insert hh (if_neg hb) (if_pos hfr) fun k hk => ?_
  simp only [hf k hk,hs k hk]

theorem Linked.of_eq (h : Linked cfg w lists) (hr : w'.row=w.row) (hh : w'.hold=w.hold) : Linked cfg w' lists := by
  obtain ⟨ready,tickMs,held,row,hold,io⟩ := w
  obtain ⟨ready',tickMs',held',row',hold',io'⟩ := w'
  subst hr hh
  exact ⟨h.threaded,h.entry,h.len⟩

theorem queue_passed (hl : Linked cfg w lists) (a : QueueArgs) : ∃ lists',Passed cfg w (.queue a) lists lists' := by
  rcases @queue_spec cfg w a with ⟨hst,hs⟩|⟨v,i,h,n,hs,hi,hlv,hh,hfr,hln,hr,hhl,hok,hindex⟩
  · exact hs.passed (c := .queue a) hl (by simp [accepted,hst]) (fun i => by simp [acceptedFor,hst]) rfl
      fun _ => rfl
  obtain ⟨mid,hmd,hsb,hsm⟩ := hs lists hl
  have hfree' : (v.hold h).state=.free := (hsm.free h).2 hfr
  have hn := hmd.link (p := ⟨a.nowMs+cfg.arpMaxpendingMs,a.ip,a.desc,a.len,i,n,.wait⟩) hi hlv hh hfree' rfl rfl hln
  generalize hp : (⟨a.nowMs+cfg.arpMaxpendingMs,a.ip,a.desc,a.len,i,n,.wait⟩ : Hold)=p at hr hhl hn
  have hkp := fun k => Hold.of_bare (@holdLink_bare cfg (v.setHold h p) i h k)
  rw [←hhl] at hkp
  have hsl := hkp h
  have ho : ∀ k,k≠h → _ := fun k hk => by
    have hk' := hkp k
    rw [setHold_of_ne v p hk] at hk'
    exact hk'
  rw [setHold_self] at hsl
  have hf : ((queue cfg w a).hold h).frame=a.frame := by
    rw [hsl.2.1,←hp]
    rfl
  obtain ⟨m,ht⟩ := hmd.threaded
  have hof : ∀ k < cfg.arpEntries,h∉mid k := fun k hk hm => by
    have hw := (ht.kept.used_of_mem hk hm).2
    simp [waits,hfree'] at hw
  have hmp : ∀ k < cfg.arpEntries,((mid k).map fun x => ((queue cfg w a).hold x).frame).Sublist
      ((lists k).map fun x => (w.hold x).frame) := by
    intro k hk
    have heq : ((mid k).map fun x => ((queue cfg w a).hold x).frame)=(mid k).map fun x => (v.hold x).frame :=
      map_congr_left fun x hx => (ho x fun hxh => hof k hk (hxh ▸ hx)).2.1
    rw [heq]
    exact hsm.order (hsb k)
  refine ⟨_,hn.of_eq hr hhl,?_,fun k hk => ?_⟩
  · have hstock : ((queue cfg w a).stock cfg).Perm (((queue cfg w a).hold h).frame::v.stock cfg) :=
      stock_take hh hfree' (by rw [hsl.1,←hp]; simp) (fun k hk => (ho k hk).2.1.symm) fun k hk => (ho k hk).1.symm
    rw [hf,hsm.stock] at hstock
    have hin : accepted cfg w (.queue a)=[a.frame] := if_pos hok
    rw [hin]
    show ((queue cfg w a).stock cfg++[]).Perm _
    rw [append_nil]
    exact hstock.trans (perm_append_singleton a.frame _).symm
  · show (map _ _).Sublist _
    by_cases hki : k=i
    · have hfo : acceptedFor cfg k w (.queue a)=[a.frame] := if_pos ⟨hok,hindex.trans hki.symm⟩
      rw [hfo,hki,update_self,map_append,map_singleton]
      show List.Sublist (_++[((queue cfg w a).hold h).frame]) _
      rw [hf]
      exact (hmp i hi).append_right _
    · rw [update_of_ne hki]
      exact (hmp k hk).trans (sublist_append_left _ _)

theorem dequeue_spec (w : Work) : ((dequeue cfg w).io.status≠.ok ∧ Sheds cfg w (dequeue cfg w)) ∨
    ∃ u i,u.row=w.row ∧ u.hold=w.hold ∧ i < cfg.arpEntries ∧ u.live i ∧ u.first i≠none8 ∧
      (dequeue cfg w).row=((holdUnlink cfg u i (u.first i)).setHold (u.first i) .zero).row ∧
      (dequeue cfg w).hold=((holdUnlink cfg u i (u.first i)).setHold (u.first i) .zero).hold ∧
      (dequeue cfg w).io.status=.ok ∧ (dequeue cfg w).io.index=i ∧ (dequeue cfg w).io.frame=(u.hold (u.first i)).frame := by
  unfold dequeue
  extract_lets src u
  split
  · exact .inl ⟨by simp [u],sheds_of_eq rfl rfl⟩
  split
  · exact .inl ⟨by simp [status],sheds_of_eq rfl rfl⟩
  next i hi =>
    obtain ⟨hm,hlt,-⟩ := firstIndex_some.1 hi
    simp only [and_eq_true,beq_iff_eq,bne_iff_ne] at hm
    have hl : u.live i := by simp [live,u,hm.1]
    exact .inr ⟨u,i,rfl,rfl,hlt,hl,hm.2,rfl,rfl,rfl,rfl,rfl⟩

theorem Linked.takeFirst {i : ℕ} (hl : Linked cfg w lists) (hi : i < cfg.arpEntries) (hu : w.live i)
    (hf : w.first i≠none8) (hr : w'.row=((holdUnlink cfg w i (w.first i)).setHold (w.first i) .zero).row)
    (hhl : w'.hold=((holdUnlink cfg w i (w.first i)).setHold (w.first i) .zero).hold) :
    ∃ rest,lists i=w.first i::rest ∧ Linked cfg w' (Function.update lists i rest) ∧
      (w.stock cfg).Perm ((w.hold (w.first i)).frame::w'.stock cfg) ∧
      ∀ k,k≠w.first i → (w'.hold k).frame=(w.hold k).frame := by
  obtain ⟨n,ht⟩ := hl.threaded
  have hc := ht.chain i hi hu
  cases hls : lists i with
  | nil =>
    rw [hls] at hc
    exact absurd hc hf
  | cons h rest =>
    have hh : w.first i=h := by
      rw [hls] at hc
      exact hc.1
    have hm : w.first i∈lists i := by
      rw [hls,hh]
      exact mem_cons_self
    have hw := ht.kept.used_of_mem hi hm
    have hn := hl.unlink (p := .zero) hi hu hm (by simp [Hold.zero]) (by simp [Hold.zero])
    rw [hls,hh,erase_cons_head,←hh] at hn
    have hkp : ∀ k,k≠w.first i → _ := fun k hk => Hold.of_bare (@holdUnlink_bare cfg w i (w.first i) k)
    have ho : ∀ k,k≠w.first i → w'.hold k=(holdUnlink cfg w i (w.first i)).hold k := fun k hk => by
      rw [hhl,setHold_of_ne _ _ hk]
    have hfr : ∀ k,k≠w.first i → (w'.hold k).frame=(w.hold k).frame := fun k hk => by
      rw [ho k hk,(hkp k hk).2.1]
    refine ⟨rest,by rw [hh],hn.of_eq hr hhl,stock_take hw.1 ?_ ?_ hfr fun k hk => ?_,hfr⟩
    · rw [hhl,setHold_self]
      rfl
    · have hwt := hw.2
      simp only [waits,beq_iff_eq] at hwt
      simp [hwt]
    · rw [ho k hk,(hkp k hk).1]

theorem dequeue_passed (hl : Linked cfg w lists) : ∃ lists',Passed cfg w .dequeue lists lists' := by
  rcases @dequeue_spec cfg w with ⟨hs,hsh⟩|⟨u,i,hr,hh,hi,hlv,hf,hrw,hhl,hok,hin,hfr⟩
  · exact hsh.passed (c := .dequeue) hl rfl (fun _ => rfl) (by simp [handed,hs]) fun i => by simp [handedFrom,hs]
  have hst := hl.of_eq hr hh
  obtain ⟨rest,hls,hn,hstock,ho⟩ := hst.takeFirst hi hlv hf hrw hhl
  have hu : u.stock cfg=w.stock cfg := by
    unfold stock
    rw [hh]
  obtain ⟨n,ht⟩ := hst.threaded
  refine ⟨_,hn,?_,fun k hk => ?_⟩
  · have hot : handed cfg w .dequeue=[(dequeue cfg w).io.frame] := if_pos hok
    rw [hot,hfr]
    show ((dequeue cfg w).stock cfg++[_]).Perm (w.stock cfg++[])
    rw [append_nil,←hu]
    exact (perm_append_singleton _ _).trans hstock.symm
  · show List.Sublist (_++_) (_++[])
    rw [append_nil,←hh]
    by_cases hki : k=i
    · have hfrom : handedFrom cfg k w .dequeue=[(dequeue cfg w).io.frame] := if_pos ⟨hok,hin.trans hki.symm⟩
      have hnd := ht.kept.nodup_row hi
      rw [hls] at hnd
      rw [hfrom,hfr,hki,update_self,hls,map_cons]
      have hm : (rest.map fun x => ((dequeue cfg w).hold x).frame)=rest.map fun x => (u.hold x).frame :=
        map_congr_left fun x hx => ho x fun hxh => (nodup_cons.1 hnd).1 (hxh ▸ hx)
      rw [←hm]
      exact List.Sublist.refl _
    have hfrom : handedFrom cfg k w .dequeue=[] := if_neg fun h => hki (h.2.symm.trans hin)
    have hof : ∀ x∈lists k,x≠u.first i := fun x hx hxf => hki (ht.kept.row_unique hk hi hx (by
      rw [hls,hxf]
      exact mem_cons_self))
    have hm : ((lists k).map fun x => ((dequeue cfg w).hold x).frame)=(lists k).map fun x => (u.hold x).frame :=
      map_congr_left fun x hx => ho x (hof x hx)
    rw [hfrom,update_of_ne hki,nil_append,←hm]
    exact List.Sublist.refl _

theorem holdUnlink_io {w : Work} {i h : ℕ} : (holdUnlink cfg w i h).io=w.io := by
  unfold holdUnlink
  extract_lets cut
  split
  · rfl
  split
  · rfl
  · split <;> rfl

theorem expireHolds_io (w : Work) (now : BitVec 32) : (expireHolds cfg w now).io=w.io := by
  unfold expireHolds
  generalize range cfg.arpPending=l
  induction l generalizing w with
  | nil => rfl
  | cons h l ih =>
    refine (ih _).trans ?_
    dsimp only [expireHold]
    split
    · rfl
    split
    · exact holdUnlink_io
    · rfl

theorem ageRows_io (w : Work) (now : BitVec 32) : (ageRows cfg w now).io=w.io := by
  unfold ageRows
  generalize range cfg.arpEntries=l
  induction l generalizing w with
  | nil => rfl
  | cons i l ih =>
    refine (ih _).trans ?_
    dsimp only
    split <;> rfl

theorem tick_eq (w : Work) (now : BitVec 32) : ((tick cfg w now).io.status≠.ok ∧ Sheds cfg w (tick cfg w now)) ∨
    ∃ v,Sheds cfg w v ∧ v.io.len=0 ∧ tick cfg w now=report cfg v now := by
  unfold tick
  extract_lets src u v
  have hu : Sheds cfg w u := sheds_of_eq rfl rfl
  split
  · exact .inl ⟨by simp [u],hu⟩
  have hv : Sheds cfg w v ∧ v.io.len=0 := by
    simp only [v]
    split
    · have hs : Sheds cfg w {u with tickMs := now} := sheds_of_eq rfl rfl
      refine ⟨hs.trans (ageRows_sheds),?_⟩
      rw [ageRows_io]
    · exact ⟨hu,rfl⟩
  refine .inr ⟨_,hv.1.trans (expireHolds_sheds),?_,rfl⟩
  rw [expireHolds_io]
  exact hv.2

/-- A frame given up is handed back and its hold freed, a request is reported, or nothing is. -/
theorem report_spec (v : Work) (now : BitVec 32) :
    (Sheds cfg v (report cfg v now) ∧ ((report cfg v now).io.status≠.ok ∨ (report cfg v now).io.len=v.io.len)) ∨
    ∃ h,h < cfg.arpPending ∧ (v.hold h).state=.reclaim ∧ (report cfg v now).row=v.row ∧
      (report cfg v now).hold=(v.setHold h .zero).hold ∧ (report cfg v now).io.status=.ok ∧
      (report cfg v now).io.frame=(v.hold h).frame := by
  unfold report
  split
  next h hh =>
    obtain ⟨hs,hlt,-⟩ := firstIndex_some.1 hh
    exact .inr ⟨h,hlt,by simpa using hs,rfl,rfl,rfl,rfl⟩
  next =>
    split
    · exact .inl ⟨sheds_of_eq rfl rfl,.inl (by simp [status])⟩
    next i hi =>
      obtain ⟨ha,hlt,-⟩ := firstIndex_some.1 hi
      simp only [Entry.asks,and_eq_true,beq_iff_eq] at ha
      have hu : v.live i := by simp [live,ha.1]
      have hr : Sheds cfg v (v.setRow i {v.row i with reqMs := now,tries := min ((v.row i).tries+1) 0xFF}) := by
        refine sheds_setRow hlt (by simp [ha.1]) ?_
        rw [hu]
        rfl
      exact .inl ⟨hr.trans (sheds_of_eq rfl rfl),.inr rfl⟩

/-- A frame given up is on no list, so freeing its hold leaves the lists alone. -/
theorem Linked.drop {h : ℕ} (hl : Linked cfg w lists) (hs : (w.hold h).state=.reclaim) (hr : w'.row=w.row)
    (hh : w'.hold=(w.setHold h .zero).hold) : Linked cfg w' lists := by
  obtain ⟨n,ht⟩ := hl.threaded
  have ho : ∀ k,k≠h → w'.hold k=w.hold k := fun k hk => by rw [hh,setHold_of_ne _ _ hk]
  have hsl : w'.hold h=.zero := by rw [hh,setHold_self]
  have hw : ∀ k < cfg.arpPending,w'.waits k=w.waits k := by
    intro k _
    by_cases hk : k=h
    · rw [hk,waits,hsl,waits,hs]
      rfl
    · rw [waits,ho k hk,waits]
  have hne : ∀ k,w.waits k → k≠h := by
    rintro k hk rfl
    simp [waits,hs] at hk
  refine ⟨⟨n,ht.congr (fun k => ?_) (fun k => ?_) rfl hw fun k hk => ?_⟩,fun k hk q hq => ?_,fun k hk => ?_⟩
  · rw [live,hr,live]
  · rw [first,hr,first]
  · rw [holdNext,ho k (hne k hk),holdNext]
  · rw [ho q (hne q (ht.kept.used_of_mem hk hq).2)]
    exact hl.entry k hk q hq
  · by_cases hkh : k=h
    · rw [hkh,hsl] at hk
      exact absurd rfl hk
    · rw [ho k hkh] at hk ⊢
      exact hl.len k hk

theorem tick_passed (hl : Linked cfg w lists) {now : BitVec 32} : ∃ lists',Passed cfg w (.tick now) lists lists' := by
  have hq : Sheds cfg w (tick cfg w now) → ((tick cfg w now).io.status≠.ok ∨ (tick cfg w now).io.len=0) →
      ∃ lists',Passed cfg w (.tick now) lists lists' := by
    intro hsh hn
    refine hsh.passed (c := .tick now) hl rfl (fun _ => rfl) (if_neg fun hsm => ?_) fun _ => rfl
    rcases hn with hst|hle
    · exact hst hsm.1
    · exact hsm.2 hle
  rcases @tick_eq cfg w now with ⟨hst,hsh⟩|⟨v,hv,hle,heq⟩
  · exact hq hsh (.inl hst)
  rw [heq] at hq
  rcases @report_spec cfg v now with ⟨hsh,hn⟩|⟨h,hh,hs,hr,hhl,hok,hf⟩
  · rw [hle] at hn
    exact hq (hv.trans hsh) hn
  obtain ⟨mid,hm,hsb,hsa⟩ := hv lists hl
  rw [←heq] at hr hhl hok hf
  have ho : ∀ k,k≠h → (tick cfg w now).hold k=v.hold k := fun k hk => by rw [hhl,setHold_of_ne _ _ hk]
  have hb : (v.hold h).state≠.free := by simp [hs]
  have hstock : (v.stock cfg).Perm ((v.hold h).frame::(tick cfg w now).stock cfg) := by
    refine stock_take hh ?_ hb (fun k hk => by rw [ho k hk]) fun k hk => by rw [ho k hk]
    rw [hhl,setHold_self]
    rfl
  have hln : (tick cfg w now).io.len≠0 := by
    have hl' := hm.len h hb
    rw [←hf] at hl'
    exact hl'
  refine ⟨mid,hm.drop hs hr hhl,?_,fun k hk => ?_⟩
  · have hot : handed cfg w (.tick now)=[(tick cfg w now).io.frame] := if_pos ⟨hok,hln⟩
    rw [hot,hf]
    show ((tick cfg w now).stock cfg++[_]).Perm (w.stock cfg++[])
    rw [append_nil,←hsa.stock]
    exact (perm_append_singleton _ _).trans hstock.symm
  · obtain ⟨n,ht⟩ := hm.threaded
    have hof : ∀ x∈mid k,x≠h := by
      rintro x hx rfl
      have hw := (ht.kept.used_of_mem hk hx).2
      simp [waits,hs] at hw
    have hmp : ((mid k).map fun x => ((tick cfg w now).hold x).frame)=(mid k).map fun x => (v.hold x).frame :=
      map_congr_left fun x hx => by rw [ho x (hof x hx)]
    show (map (fun x => ((tick cfg w now).hold x).frame) (mid k)).Sublist (_++[])
    rw [append_nil,hmp]
    exact hsa.order (hsb k)

theorem step_passed (hl : Linked cfg w lists) (c : Call) : ∃ lists',Passed cfg w c lists lists' := by
  cases c with
  | add a => exact (add_sheds).passed (c := .add a) hl rfl (fun _ => rfl) rfl fun _ => rfl
  | find pro spa => exact (find_sheds).passed (c := .find pro spa) hl rfl (fun _ => rfl) rfl fun _ => rfl
  | remove pro spa => exact (remove_sheds).passed (c := .remove pro spa) hl rfl (fun _ => rfl) rfl fun _ => rfl
  | input a => exact (input_sheds).passed (c := .input a) hl rfl (fun _ => rfl) rfl fun _ => rfl
  | queue a => exact queue_passed hl a
  | dequeue => exact dequeue_passed hl
  | tick nowMs => exact tick_passed hl

/-- Nothing is held after `clear`. -/
theorem clear_linked {w : Work} : Linked cfg (clear w) fun _ => [] := by
  refine ⟨⟨0,Kept.empty fun _ _ => rfl,fun i _ hu => ?_,fun _ _ _ => rfl⟩,fun i _ h hh => ?_,fun h hh => ?_⟩
  · cases hu
  · cases hh
  · exact absurd rfl hh

variable (cfg) in
/-- Every hold in use is on exactly one row's list, or given up and on none, and the lists end. -/
structure Listed (w : Work) : Prop where
  /-- The list of a row in use is threaded from its first frame to the end, no hold met twice. -/
  ends : ∀ i < cfg.arpEntries,w.live i=true →
    Chain w.holdNext cfg.arpPending none8 (w.first i) (w.line cfg i) ∧ (w.line cfg i).Nodup
  /-- A hold in use is on one list, or to be reclaimed. -/
  once : ∀ h < cfg.arpPending,(w.hold h).state≠.free → ((w.hold h).state=.wait ∧ ∃! i,i < cfg.arpEntries ∧ h∈w.line cfg i) ∨
      ((w.hold h).state=.reclaim ∧ ∀ i < cfg.arpEntries,h∉w.line cfg i)

theorem Linked.listed (hl : Linked cfg w lists) : Listed cfg w := by
  obtain ⟨n,ht⟩ := hl.threaded
  refine ⟨fun i hi hu => ?_,fun h hh hs => ?_⟩
  · rw [hl.line hi]
    exact ⟨ht.chain i hi hu,ht.kept.nodup_row hi⟩
  cases hst : (w.hold h).state with
  | free => exact absurd hst hs
  | wait =>
    obtain ⟨i,hi,hhi⟩ := mem_flat.1 ((ht.kept.mem h).2 ⟨hh,by simp [waits,hst]⟩)
    refine .inl ⟨rfl,i,⟨hi,by rwa [hl.line hi]⟩,?_⟩
    rintro k ⟨hk,hhk⟩
    rw [hl.line hk] at hhk
    exact ht.kept.row_unique hk hi hhk hhi
  | reclaim =>
    refine .inr ⟨rfl,fun i hi hhi => ?_⟩
    rw [hl.line hi] at hhi
    have hw := (ht.kept.used_of_mem hi hhi).2
    simp [waits,hst] at hw

/-- In every run from `clear` each hold in use is on one row's list or given up, and frames go out as they were queued. -/
theorem run_frames (cfg : Config) (w : Work) (calls : List Call) : Listed cfg (run (step cfg) (clear w) calls) ∧
    (∀ i < cfg.arpEntries,
      (outputs (step cfg) (handedFrom cfg i) (clear w) calls++(run (step cfg) (clear w) calls).waiting cfg i).Sublist
        (outputs (step cfg) (acceptedFor cfg i) (clear w) calls)) ∧
    ((run (step cfg) (clear w) calls).stock cfg++outputs (step cfg) (handed cfg) (clear w) calls).Perm
      (outputs (step cfg) (accepted cfg) (clear w) calls) ∧
    ∀ desc,((outputs (step cfg) (handed cfg) (clear w) calls).map Frame.desc).count desc ≤
      ((outputs (step cfg) (accepted cfg) (clear w) calls).map Frame.desc).count desc := by
  have hkeep : ∀ (w : Work) (c : Call),(∃ lists,Linked cfg w lists) → ∃ lists,Linked cfg (step cfg w c) lists := by
    rintro w c ⟨lists,hl⟩
    obtain ⟨lists',hp⟩ := step_passed hl c
    exact ⟨lists',hp.linked⟩
  have hstart : ∃ lists,Linked cfg (clear w) lists := ⟨_,clear_linked⟩
  have hempty : (clear w).stock cfg=[] := by simp [stock,clear,Hold.zero]
  have hstock := run_inventory hkeep (stock cfg) (fun w c h => by
    obtain ⟨lists,hl⟩ := h
    obtain ⟨lists',hp⟩ := step_passed hl c
    exact hp.stock) hstart calls
  rw [hempty,nil_append] at hstock
  have hrun : ∃ lists,Linked cfg (run (step cfg) (clear w) calls) lists := run_always hkeep hstart
  obtain ⟨lists,hl⟩ := hrun
  refine ⟨hl.listed,fun i hi => ?_,hstock,fun desc => ?_⟩
  · have hstep : ∀ (w : Work) (c : Call),(∃ lists,Linked cfg w lists) →
        (handedFrom cfg i w c++(step cfg w c).waiting cfg i).Sublist (w.waiting cfg i++acceptedFor cfg i w c) := by
      rintro w c ⟨lists,hl⟩
      obtain ⟨lists',hp⟩ := step_passed hl c
      rw [waiting,hp.linked.line hi,waiting,hl.line hi]
      exact hp.order i hi
    have horder := run_order hkeep (fun w => waiting cfg w i) hstep hstart calls
    have hnone : (clear w).waiting cfg i=[] := by
      rw [waiting,(clear_linked).line hi]
      rfl
    rwa [hnone,nil_append] at horder
  · have hcount := (hstock.map Frame.desc).count_eq desc
    rw [map_append,count_append] at hcount
    omega

end Runs

end IdemIp.ArpTable
