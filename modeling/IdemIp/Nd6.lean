import IdemIp.Config
import IdemIp.IndexChain
import IdemIp.Checksum

/-!
# Neighbor Discovery state, `nd6.c`

Four tables of RFC 4861: neighbors, destinations, prefixes and default routers,
and the frames queued for a neighbor until its address is resolved. A destination
and a router name a neighbor by its index, and deleting a neighbor drops the router
and the destinations that name it.
-/

namespace IdemIp.Nd6

open IndexChain

/-- Reachability of a neighbor, `IdemIpNd6State`. -/
inductive State
  | incomplete | reachable | stale | delay | probe
deriving DecidableEq

/-- One neighbor, `Nd6Neighbor`. -/
structure Neighbor where
  nextEventMs : BitVec 32
  (addr lladdr : Octets)
  state : State
  probes : BitVec 8
  pendingHead : ℕ
  (isRouter used : Bool)

def Neighbor.zero : Neighbor := ⟨0,.zero,.zero,.incomplete,0,0,false,false⟩

/-- One destination, `Nd6Destination`. -/
structure Destination where
  (dst nextHop : Octets)
  pmtu : BitVec 16
  neighbor : ℕ
  used : Bool

def Destination.zero : Destination := ⟨.zero,.zero,0,0,false⟩

/-- One prefix, `Nd6Prefix`. -/
structure Prefix where
  invalidateMs : BitVec 32
  addr : Octets
  prefixLen : BitVec 8
  (onLink autonomous infinite used : Bool)

def Prefix.zero : Prefix := ⟨0,.zero,0,false,false,false,false⟩

/-- One default router, `Nd6Router`. -/
structure Router where
  invalidateMs : BitVec 32
  addr : Octets
  neighbor : ℕ
  used : Bool

def Router.zero : Router := ⟨0,.zero,0,false⟩

/-- One queued frame, `Nd6Pending`. -/
structure Pending where
  deadlineMs : BitVec 32
  (desc len neighbor next : ℕ)
  used : Bool

def Pending.zero : Pending := ⟨0,0,0,0,0,false⟩

/-- Host variables and table counts, `Nd6Ctx`. -/
structure Ctx where
  (nowMs baseReachableMs reachableMs reachableRedrawMs retransMs linkMtu : BitVec 32)
  curHopLimit : BitVec 8
  (neighbors destinations prefixes routers pendings : ℕ)
  /-- Where the round robin over the routers goes on. -/
  routerCursor : ℕ
  (managed other : Bool)
  /-- `clear` ran. -/
  ready : Bool

/-- Result members of the operand block, `Nd6Io`. -/
structure Io where
  status : Status
  (lladdr nextHop target : Option Octets)
  (nextEventMs reachableMs retransMs linkMtu : BitVec 32)
  pmtu : BitVec 16
  (desc len neighbor destination prefixRow router pending : ℕ)
  state : State
  (probes curHopLimit expired : BitVec 8)
  (isRouter onLink solicit multicast managed other : Bool)

/-- The caller's borrow: context, tables and operand block. -/
structure Work where
  ctx : Ctx
  neighbor : ℕ → Neighbor
  destination : ℕ → Destination
  prefixAt : ℕ → Prefix
  router : ℕ → Router
  pending : ℕ → Pending
  io : Io

variable (w : Work) (i : ℕ)

def Work.setNeighbor (n : Neighbor) : Work := {w with neighbor := Function.update w.neighbor i n}

def Work.setDestination (d : Destination) : Work :=
  {w with destination := Function.update w.destination i d}

def Work.setPrefix (p : Prefix) : Work := {w with prefixAt := Function.update w.prefixAt i p}

def Work.setRouter (r : Router) : Work := {w with router := Function.update w.router i r}

def Work.setPending (p : Pending) : Work := {w with pending := Function.update w.pending i p}

/-- Link of a queued frame. -/
def Work.pendingNext : ℕ := (w.pending i).next

def Work.latch (nowMs : BitVec 32) : Work := {w with ctx := {w.ctx with nowMs}}

def Work.status (w : Work) (s : Status) : Work := {w with io := {w.io with status := s}}

section Values

/-- Equality of two addresses, `nd6_addr_eq`. -/
def addrEq (a b : Octets) : Bool := a.bytesEq b 16

/-- Equality of the leading bits of two addresses, `nd6_prefix_eq`. -/
def prefixEq (a b : Octets) (len : BitVec 8) : Bool := a.prefixEq b len

/-- The ten bits of a link-local address, `nd6_is_link_local`. -/
def isLinkLocal (addr : Octets) : Bool := addr 0==0xFE && addr 1 &&& 0xC0==0x80

/-- A multicast address, `nd6_is_multicast`. -/
def isMulticast (addr : Octets) : Bool := addr 0==0xFF

/-- The clock is at or past a deadline, `nd6_due`. -/
def due (nowMs deadlineMs : BitVec 32) : Bool := nowMs-deadlineMs<0x80000000

/-- Time left to a deadline, `nd6_remaining`. -/
def remaining (nowMs deadlineMs : BitVec 32) : BitVec 32 := if due nowMs deadlineMs then 0 else deadlineMs-nowMs

/-- A lifetime as an invalidation timer, `nd6_lifetime_ms`. -/
def lifetimeMs (lifetimeS : BitVec 32) : BitVec 32 := if 2147483≤lifetimeS then 0x7FFFFFFF else lifetimeS*1000

/-- A draw of ReachableTime, `nd6_draw_reachable`. -/
def drawReachable (baseMs rand : BitVec 32) : BitVec 32 :=
  let base := if 0x7FFFFFFF/3<baseMs then 0x7FFFFFFF/3 else baseMs
  base>>>1+((rand.setWidth 64*base.setWidth 64)>>>32).setWidth 32

end Values

variable (cfg : Config) (n : Neighbor) (w : Work) (addr : Octets)

/-- ReachableTime, `nd6_reachable_ms`. -/
def Ctx.reachable (c : Ctx) : BitVec 32 := if c.reachableMs≠0 then c.reachableMs else cfg.nd6ReachableTimeMs

/-- BaseReachableTime, `nd6_base_reachable_ms`. -/
def Ctx.baseReachable (c : Ctx) : BitVec 32 := if c.baseReachableMs≠0 then c.baseReachableMs else cfg.nd6ReachableTimeMs

/-- RetransTimer, `nd6_retrans_ms`. -/
def Ctx.retrans (c : Ctx) : BitVec 32 :=
  let ms := if c.retransMs≠0 then c.retransMs else cfg.nd6RetransTimerMs
  if 0x1FFFFFFF < ms then 0x1FFFFFFF else ms

/-- LinkMTU, `nd6_link_mtu`. -/
def Ctx.mtu (c : Ctx) : BitVec 32 := if c.linkMtu≠0 then c.linkMtu else 1500

/-- CurHopLimit, `nd6_cur_hop_limit`. -/
def Ctx.hopLimit (c : Ctx) : BitVec 8 := if c.curHopLimit≠0 then c.curHopLimit else cfg.ipDefaultTtl

/-- Neighbor of an address, `nd6_neighbor_lookup`. -/
def neighborLookup : Option ℕ :=
  firstIndex cfg.nd6Neighbors fun i => (w.neighbor i).used && addrEq (w.neighbor i).addr addr

/-- The deadline of the state a neighbor enters, `nd6_arm`. -/
def arm (c : Ctx) (n : Neighbor) : Neighbor :=
  {n with nextEventMs := match n.state with
    | .reachable => c.nowMs+c.reachable cfg
    | .delay => c.nowMs+cfg.nd6DelayFirstProbeMs
    | _ => c.nowMs}

/-- The state has a deadline, `nd6_has_timer`. -/
def hasTimer : Bool := n.state != .stale

/-- Take a free row for a neighbor, `nd6_create_neighbor`. -/
def createNeighbor (lladdr : Option Octets) (state : State) (isRouter : Bool) :
    Option (Work×ℕ) :=
  (firstIndex cfg.nd6Neighbors fun i => !(w.neighbor i).used).map fun i =>
    let n : Neighbor := ⟨0,addr.padded 16,(lladdr.map fun l => l.padded 6).getD .zero,state,0,none8,isRouter,true⟩
    ({w.setNeighbor i (arm cfg w.ctx n) with ctx := {w.ctx with neighbors := w.ctx.neighbors+1}},i)

/-- Report a neighbor, `nd6_report_neighbor`. -/
def reportNeighbor (i : ℕ) : Work :=
  let n := w.neighbor i
  {w with io := {w.io with
    neighbor := i
    state := n.state
    probes := n.probes
    isRouter := n.isRouter
    nextEventMs := n.nextEventMs
    lladdr := if n.state=.incomplete then none else some n.lladdr}}

/-- Hang a frame behind those of a neighbor, `nd6_pending_link`. -/
def pendingLink (ni pi : ℕ) : Work :=
  let u := w.setPending pi {w.pending pi with next := none8}
  if cfg.nd6Pending≤(u.neighbor ni).pendingHead then u.setNeighbor ni {u.neighbor ni with pendingHead := pi}
  else match tail? u.pendingNext cfg.nd6Pending cfg.nd6Pending (u.neighbor ni).pendingHead with
    | none => u
    | some t => u.setPending t {u.pending t with next := pi}

/-- Take a frame off a neighbor's queue, `nd6_pending_unlink`. -/
def pendingUnlink (ni pi : ℕ) : Work :=
  if (w.neighbor ni).pendingHead=pi then w.setNeighbor ni {w.neighbor ni with pendingHead := (w.pending pi).next}
  else match pred? w.pendingNext cfg.nd6Pending pi cfg.nd6Pending (w.neighbor ni).pendingHead with
    | none => w
    | some t => w.setPending t {w.pending t with next := (w.pending pi).next}

/-- Take a frame off its queue and report it, `nd6_release_pending`. -/
def releasePending (pi : ℕ) : Work :=
  let p := w.pending pi
  let u := if p.neighbor < cfg.nd6Neighbors then pendingUnlink cfg w p.neighbor pi else w
  {u.setPending pi ⟨0,0,0,none8,none8,false⟩ with
    io := {u.io with pending := pi,desc := p.desc,len := p.len,neighbor := p.neighbor}
    ctx := {u.ctx with pendings := u.ctx.pendings-1}}

def dropDestination (i : ℕ) : Work :=
  {w.setDestination i {w.destination i with used := false,neighbor := none8} with
    ctx := {w.ctx with destinations := w.ctx.destinations-1}}

/-- Free one destination if it goes through a neighbor. -/
def dropDestinationVia (ni : ℕ) (w : Work) (i : ℕ) : Work :=
  if (w.destination i).used && (w.destination i).neighbor==ni then dropDestination w i else w

/-- Free the destinations through a neighbor, `nd6_drop_destinations_via`. -/
def dropDestinationsVia (ni : ℕ) : Work := (List.range cfg.nd6Destinations).foldl (dropDestinationVia ni) w

/-- Free a router and the destinations through it, `nd6_drop_router`. -/
def dropRouter (ri : ℕ) : Work :=
  let ni := (w.router ri).neighbor
  let u := {w.setRouter ri ⟨0,.zero,none8,false⟩ with ctx := {w.ctx with routers := w.ctx.routers-1}}
  if ni < cfg.nd6Neighbors then dropDestinationsVia cfg u ni else u

/-- Free the router that names a neighbor, `nd6_drop_router_of`. -/
def dropRouterOf (ni : ℕ) : Work :=
  match firstIndex cfg.nd6Routers fun i => (w.router i).used && (w.router i).neighbor==ni with
  | some ri => dropRouter cfg w ri
  | none => dropDestinationsVia cfg w ni

/-- Free a neighbor and what points at it, `nd6_free_neighbor`. -/
def freeNeighbor (ni : ℕ) : Work :=
  let u := dropRouterOf cfg w ni
  {u.setNeighbor ni {Neighbor.zero with pendingHead := none8} with
    ctx := {u.ctx with neighbors := u.ctx.neighbors-1}}

/-- Zero the context and the tables and mark the borrow, `idemip_nd6_clear`. -/
def clear : Work :=
  ⟨⟨0,0,0,0,0,0,0,0,0,0,0,0,0,false,false,true⟩,fun _ => .zero,fun _ => .zero,fun _ => .zero,fun _ => .zero,fun _ => .zero,
    {w.io with status := .ok}⟩

/-- Operands of a Neighbor Cache call, `Nd6NeighborArgs`. -/
structure NeighborArgs where
  (addr lladdr : Option Octets)
  /-- State of a neighbor that is created. -/
  state : State
  (isRouter solicited override : Bool)
  nowMs : BitVec 32

/-- Operands of a Destination Cache call, `Nd6DestArgs`. -/
structure DestArgs where
  (dst nextHop : Option Octets)
  pmtu : BitVec 16
  neighbor : ℕ
  nowMs : BitVec 32

/-- Operands of a Prefix List call, `Nd6PrefixArgs`. -/
structure PrefixArgs where
  addr : Option Octets
  lifetimeS : BitVec 32
  prefixLen : BitVec 8
  (onLink autonomous : Bool)
  nowMs : BitVec 32

/-- Operands of a Default Router List call, `Nd6RouterArgs`. -/
structure RouterArgs where
  (addr lladdr : Option Octets)
  lifetimeS : BitVec 16
  nowMs : BitVec 32

/-- Operands of a queued frame call, `Nd6PendingArgs`. -/
structure PendingArgs where
  (desc len neighbor : ℕ)
  nowMs : BitVec 32

/-- Operands of `params_set`, `Nd6ParamsArgs`. -/
structure ParamsArgs where
  (reachableTimeMs retransTimerMs linkMtu rand : BitVec 32)
  curHopLimit : BitVec 8
  (managed other : Bool)
  nowMs : BitVec 32

/-- Report the neighbor of an address, `idemip_nd6_neighbor_find`. -/
def neighborFind (a : NeighborArgs) : Work :=
  let u := {w with io := {w.io with status := .err,neighbor := none8,lladdr := none}}
  match a.addr with
  | none => u
  | some addr =>
    if !w.ctx.ready then u
    else
      let u := u.latch a.nowMs
      match neighborLookup cfg u addr with
      | none => u
      | some i => (reportNeighbor u i).status .ok

/-- The link-layer address supplied is another one. -/
def Neighbor.differs (lladdr : Option Octets) : Bool := lladdr.any fun l => !n.lladdr.bytesEq l 6

/-- A neighbor in a new state, its solicitations forgotten. -/
def Neighbor.enter (c : Ctx) (state : State) : Neighbor := arm cfg c {n with state := state,probes := 0}

/-- A neighbor that an advertisement revises. -/
def Neighbor.revised (c : Ctx) (a : NeighborArgs) : Neighbor :=
  if n.state=.incomplete then
    match a.lladdr with
    | none => n
    | some l =>
      Neighbor.enter cfg {n with lladdr := l.padded 6,isRouter := a.isRouter} c (if a.solicited then .reachable else .stale)
  else if n.differs a.lladdr && !a.override then
    if n.state=.reachable then n.enter cfg c .stale else n
  else
    let m := match a.lladdr with
      | none => n
      | some l => if n.differs a.lladdr then {n with lladdr := l.padded 6} else n
    let m := if a.solicited then m.enter cfg c .reachable else if n.differs a.lladdr then m.enter cfg c .stale else m
    {m with isRouter := a.isRouter}

/-- Create a neighbor or revise it, `nd6_set_neighbor`. -/
def setNeighbor (a : NeighborArgs) : Work :=
  match neighborLookup cfg w addr with
  | none =>
    match createNeighbor cfg w addr a.lladdr a.state a.isRouter with
    | none => w.status .busy
    | some (v,i) => (reportNeighbor v i).status .ok
  | some i =>
    let v := w.setNeighbor i ((w.neighbor i).revised cfg w.ctx a)
    let v := if (w.neighbor i).isRouter && !(v.neighbor i).isRouter then dropRouterOf cfg v i else v
    (reportNeighbor v i).status .ok

/-- Set a neighbor, `idemip_nd6_neighbor_set`. -/
def neighborSet (a : NeighborArgs) : Work :=
  let u := {w with io := {w.io with status := .err,neighbor := none8}}
  match a.addr with
  | none => u
  | some addr => if !w.ctx.ready then u else setNeighbor cfg (u.latch a.nowMs) addr a

/-- Reachability confirmed by an upper layer, `idemip_nd6_neighbor_confirm`. -/
def neighborConfirm (index : ℕ) (nowMs : BitVec 32) : Work :=
  let u := w.status .err
  if !w.ctx.ready || decide (cfg.nd6Neighbors ≤ index) || !(w.neighbor index).used then u
  else
    let u := u.latch nowMs
    let u := if (w.neighbor index).state≠.incomplete then
        u.setNeighbor index ((w.neighbor index).enter cfg u.ctx .reachable)
      else u
    (reportNeighbor u index).status .ok

/-- A packet went to a neighbor, `idemip_nd6_neighbor_used`. -/
def neighborUsed (index : ℕ) (nowMs : BitVec 32) : Work :=
  let u := w.status .err
  if !w.ctx.ready || decide (cfg.nd6Neighbors ≤ index) || !(w.neighbor index).used then u
  else
    let u := u.latch nowMs
    let u := if (w.neighbor index).state=.stale then
        u.setNeighbor index ((w.neighbor index).enter cfg u.ctx .delay)
      else u
    (reportNeighbor u index).status .ok

/-- Hand back a frame of a neighbor, or delete it, `idemip_nd6_neighbor_remove`. -/
def neighborRemove (index : ℕ) (nowMs : BitVec 32) : Work :=
  let u := {w with io := {w.io with status := .err,pending := none8,desc := 0,len := 0}}
  if !w.ctx.ready || decide (cfg.nd6Neighbors ≤ index) || !(w.neighbor index).used then u
  else
    let u := u.latch nowMs
    let u := {u with io := {u.io with neighbor := index}}
    if (w.neighbor index).pendingHead < cfg.nd6Pending then (releasePending cfg u (w.neighbor index).pendingHead).status .busy
    else (freeNeighbor cfg u index).status .ok

def destinationLookup (dst : Octets) : Option ℕ :=
  firstIndex cfg.nd6Destinations fun i => (w.destination i).used && addrEq (w.destination i).dst dst

/-- Report the next hop of a destination, `idemip_nd6_dest_find`. -/
def destFind (a : DestArgs) : Work :=
  let u := {w with io := {w.io with status := .err,destination := none8,nextHop := none,pmtu := 0}}
  match a.dst with
  | none => u
  | some dst =>
    if !w.ctx.ready then u
    else
      let u := u.latch a.nowMs
      match destinationLookup cfg u dst with
      | none => u
      | some i =>
        {u with io := {u.io with
          destination := i
          nextHop := some (u.destination i).nextHop
          pmtu := (u.destination i).pmtu
          neighbor := (u.destination i).neighbor
          status := .ok}}

/-- Take a free row for a destination. -/
def createDestination (dst : Octets) : Option (Work×ℕ) :=
  (firstIndex cfg.nd6Destinations fun i => !(w.destination i).used).map fun i =>
    ({w.setDestination i {Destination.zero with dst := dst.padded 16,neighbor := none8,used := true} with
      ctx := {w.ctx with destinations := w.ctx.destinations+1}},i)

/-- A destination that a call revises. -/
def Destination.revised (d : Destination) (a : DestArgs) : Destination :=
  {d with
    nextHop := (a.nextHop.map fun n => n.padded 16).getD d.nextHop
    pmtu := if a.pmtu≠0 then a.pmtu else d.pmtu
    neighbor := if a.neighbor < cfg.nd6Neighbors then a.neighbor else d.neighbor}

/-- Revise a destination and report it. -/
def reviseDestination (i : ℕ) (a : DestArgs) : Work :=
  let d := (w.destination i).revised cfg a
  let u := w.setDestination i d
  {u with io := {u.io with
    destination := i
    nextHop := some d.nextHop
    pmtu := d.pmtu
    neighbor := d.neighbor
    status := .ok}}

/-- Install or revise a destination, `idemip_nd6_dest_set`. -/
def destSet (a : DestArgs) : Work :=
  let u := {w with io := {w.io with status := .err,destination := none8}}
  match a.dst with
  | none => u
  | some dst =>
    if !w.ctx.ready then u
    else
      let u := u.latch a.nowMs
      match destinationLookup cfg u dst with
      | some i => reviseDestination cfg u i a
      | none =>
        if a.nextHop.isNone then u
        else match createDestination cfg u dst with
          | none => u.status .busy
          | some (v,i) => reviseDestination cfg v i a

def prefixLookup (len : BitVec 8) : Option ℕ :=
  firstIndex cfg.nd6Prefixes fun i =>
    (w.prefixAt i).used && (w.prefixAt i).prefixLen==len && prefixEq (w.prefixAt i).addr addr len

/-- Take a free row for a prefix. -/
def createPrefix (len : BitVec 8) : Option (Work×ℕ) :=
  (firstIndex cfg.nd6Prefixes fun i => !(w.prefixAt i).used).map fun i =>
    ({w.setPrefix i {Prefix.zero with addr := addr.padded 16,prefixLen := len,used := true} with
      ctx := {w.ctx with prefixes := w.ctx.prefixes+1}},i)

/-- Start the timer of a prefix. -/
def revisePrefix (i : ℕ) (a : PrefixArgs) : Work :=
  let u := w.setPrefix i {w.prefixAt i with
    onLink := a.onLink
    autonomous := a.autonomous
    infinite := a.lifetimeS==0xFFFFFFFF
    invalidateMs := w.ctx.nowMs+lifetimeMs a.lifetimeS}
  {u with io := {u.io with prefixRow := i,status := .ok}}

/-- Install a prefix, `idemip_nd6_prefix_set`. -/
def prefixSet (a : PrefixArgs) : Work :=
  let u := {w with io := {w.io with status := .err,prefixRow := none8}}
  match a.addr with
  | none => u
  | some addr =>
    if !w.ctx.ready || decide (128<a.prefixLen) then u
    else
      let u := u.latch a.nowMs
      if isLinkLocal addr || !a.onLink then u.status .ok
      else match prefixLookup cfg u addr a.prefixLen with
        | some i => revisePrefix u i a
        | none =>
          if a.lifetimeS=0 then u.status .ok
          else match createPrefix cfg u addr a.prefixLen with
            | none => u.status .busy
            | some (v,i) => revisePrefix v i a

/-- The longest prefix that matches so far, and its row. -/
def matchPrefix (best : Option (BitVec 8)×ℕ) (i : ℕ) : Option (BitVec 8)×ℕ :=
  let p := w.prefixAt i
  if !p.used || !p.onLink then best
  else if best.1.any fun len => decide (p.prefixLen≤len) then best
  else if prefixEq p.addr addr p.prefixLen then (some p.prefixLen,i)
  else best

/-- Longest prefix match, `idemip_nd6_prefix_on_link`. -/
def prefixOnLink (a : PrefixArgs) : Work :=
  let u := {w with io := {w.io with status := .err,prefixRow := none8,onLink := false}}
  match a.addr with
  | none => u
  | some addr =>
    if !w.ctx.ready then u
    else
      let u := u.latch a.nowMs
      let own : Option (BitVec 8) := if isMulticast addr || isLinkLocal addr then some 10 else none
      let best := (List.range cfg.nd6Prefixes).foldl (matchPrefix u addr) (own,none8)
      {u with io := {u.io with prefixRow := best.2,onLink := best.1.isSome,status := .ok}}

def routerLookup : Option ℕ :=
  firstIndex cfg.nd6Routers fun i => (w.router i).used && addrEq (w.router i).addr addr

/-- Record the link-layer address an advertisement carries, in the neighbor there is or a new one. -/
def recordNeighbor (ni : Option ℕ) : Option Octets → Option (Work×Option ℕ)
  | none => some (w,ni)
  | some l =>
    match ni with
    | none => (createNeighbor cfg w addr (some l) .stale true).map fun r => (r.1,some r.2)
    | some i =>
      let n := w.neighbor i
      if n.lladdr.bytesEq l 6 then some (w,some i)
      else some (w.setNeighbor i (arm cfg w.ctx {n with lladdr := l.padded 6,state := .stale}),some i)

/-- Take a row for a router. -/
def takeRouter (ri : ℕ) (addr : Octets) : Work :=
  {w.setRouter ri {w.router ri with used := true,addr := addr.padded 16} with
    ctx := {w.ctx with routers := w.ctx.routers+1}}

/-- The row of a router that is listed, or a free row taken for it. -/
def routerRow : Option ℕ → Option (Work×ℕ)
  | some ri => some (w,ri)
  | none => (firstIndex cfg.nd6Routers fun i => !(w.router i).used).map fun ri => (takeRouter w ri addr,ri)

/-- Point a router at its neighbor and start its timer. -/
def startRouter (ri : ℕ) (ni : Option ℕ) (lifetimeS : BitVec 16) : Work :=
  w.setRouter ri {w.router ri with
    neighbor := ni.getD none8
    invalidateMs := w.ctx.nowMs+lifetimeMs (lifetimeS.setWidth 32)}

/-- Mark the neighbor an advertisement came from and report. -/
def routerDone (ri ni : Option ℕ) : Work :=
  let u := match ni with
    | none => w
    | some i => reportNeighbor (w.setNeighbor i {w.neighbor i with isRouter := true}) i
  {u with io := {u.io with router := ri.getD none8,status := .ok}}

/-- Take an advertisement of an address that can be a router's. -/
def advertised (a : RouterArgs) : Work :=
  let ni := neighborLookup cfg w addr
  let ri := routerLookup cfg w addr
  if a.lifetimeS=0 then
    let v := match ri with
      | none => w
      | some ri => dropRouter cfg w ri
    match recordNeighbor cfg v addr ni a.lladdr with
    | none => v.status .busy
    | some (v,ni) => routerDone v none ni
  else
    match recordNeighbor cfg w addr ni a.lladdr with
    | none => w.status .busy
    | some (v,ni) =>
      match routerRow cfg v addr ri with
      | none => v.status .busy
      | some (v,ri) => routerDone (startRouter v ri ni a.lifetimeS) (some ri) ni

/-- Install or time out a default router, `idemip_nd6_router_set`. -/
def routerSet (a : RouterArgs) : Work :=
  let u := {w with io := {w.io with status := .err,router := none8}}
  match a.addr with
  | none => u
  | some addr => if !w.ctx.ready || !isLinkLocal addr then u else advertised cfg (u.latch a.nowMs) addr a

/-- State of the neighbor a router names, when there is one. -/
def routerState (ri : ℕ) : Option State :=
  let r := w.router ri
  if r.used && decide (r.neighbor < cfg.nd6Neighbors) && (w.neighbor r.neighbor).used then
    some (w.neighbor r.neighbor).state
  else none

/-- The first reachable router, or the first that may be. -/
def probableRouter : Option ℕ :=
  (firstIndex cfg.nd6Routers fun i => routerState cfg w i==some .reachable).or
    (firstIndex cfg.nd6Routers fun i => (routerState cfg w i).any fun st => st != .incomplete)

/-- The next router of the round robin, by an index that is one octet. -/
def nextRouter : Option ℕ :=
  ((List.range cfg.nd6Routers).map fun k => (w.ctx.routerCursor+k)%256%cfg.nd6Routers).find? fun i => (w.router i).used

def selectRouter (ri : ℕ) : Work :=
  let r := w.router ri
  let u := {w with io := {w.io with router := ri}}
  let u := if decide (r.neighbor < cfg.nd6Neighbors) && (w.neighbor r.neighbor).used then
      reportNeighbor {u with io := {u.io with nextHop := some (w.neighbor r.neighbor).addr}} r.neighbor
    else {u with io := {u.io with nextHop := some r.addr}}
  u.status .ok

/-- Pick a default router, `idemip_nd6_router_select`. -/
def routerSelect (nowMs : BitVec 32) : Work :=
  let u := {w with io := {w.io with status := .err,router := none8,neighbor := none8,nextHop := none}}
  if !w.ctx.ready then u
  else
    let u := u.latch nowMs
    match probableRouter cfg u with
    | some ri => selectRouter cfg u ri
    | none =>
      match nextRouter cfg u with
      | none => u
      | some ri =>
        selectRouter cfg {u with ctx := {u.ctx with routerCursor := if cfg.nd6Routers ≤ ri+1 then 0 else ri+1}} ri

/-- Put a frame into a row and hang it behind its neighbor's queue. -/
def pushPending (pi : ℕ) (a : PendingArgs) : Work :=
  let deadlineMs := w.ctx.nowMs+w.ctx.retrans cfg*(cfg.nd6MaxMulticastSolicit.setWidth 32+1)
  let u := pendingLink cfg (w.setPending pi ⟨deadlineMs,a.desc,a.len,a.neighbor,none8,true⟩) a.neighbor pi
  {u with
    ctx := {u.ctx with pendings := u.ctx.pendings+1}
    io := {u.io with pending := pi,neighbor := a.neighbor,status := .ok}}

/-- Queue a frame for a neighbor, `idemip_nd6_pending_push`. -/
def pendingPush (a : PendingArgs) : Work :=
  let u := {w with io := {w.io with status := .err,pending := none8,desc := 0,len := 0}}
  if !w.ctx.ready || decide (cfg.nd6Neighbors≤a.neighbor) || a.len==0 || !(w.neighbor a.neighbor).used then u
  else
    let u := u.latch a.nowMs
    match firstIndex cfg.nd6Pending fun i => !(u.pending i).used with
    | some pi => pushPending cfg u pi a
    | none =>
      let pi := (u.neighbor a.neighbor).pendingHead
      if cfg.nd6Pending≤pi then u.status .busy else pushPending cfg (releasePending cfg u pi) pi a

/-- Take the first frame of a neighbor, `idemip_nd6_pending_pop`. -/
def pendingPop (neighbor : ℕ) (nowMs : BitVec 32) : Work :=
  let u := {w with io := {w.io with status := .err,pending := none8,desc := 0,len := 0}}
  if !w.ctx.ready || decide (cfg.nd6Neighbors≤neighbor) || !(w.neighbor neighbor).used ||
      decide (cfg.nd6Pending≤(w.neighbor neighbor).pendingHead) then u
  else (releasePending cfg (u.latch nowMs) (w.neighbor neighbor).pendingHead).status .ok

/-- Host variables an advertisement sets. -/
def Ctx.advertised (c : Ctx) (a : ParamsArgs) : Ctx :=
  {c with
    curHopLimit := if a.curHopLimit≠0 then a.curHopLimit else c.curHopLimit
    baseReachableMs := if a.reachableTimeMs≠0 ∧ a.reachableTimeMs≠c.baseReachableMs then a.reachableTimeMs
      else c.baseReachableMs
    reachableMs := if a.reachableTimeMs≠0 ∧ a.reachableTimeMs≠c.baseReachableMs then drawReachable a.reachableTimeMs a.rand
      else c.reachableMs
    retransMs := if a.retransTimerMs≠0 then a.retransTimerMs else c.retransMs
    linkMtu := if 1280≤a.linkMtu ∧ a.linkMtu≤1500 then a.linkMtu else c.linkMtu
    managed := a.managed
    other := a.other}

/-- Copy the host variables, `idemip_nd6_params_set`. -/
def paramsSet (a : ParamsArgs) : Work :=
  let u := w.status .err
  if !w.ctx.ready then u
  else
    let c := (u.latch a.nowMs).ctx.advertised a
    {u with
      ctx := c
      io := {u.io with
        curHopLimit := c.hopLimit cfg
        reachableMs := c.reachable cfg
        retransMs := c.retrans cfg
        linkMtu := c.mtu
        managed := c.managed
        other := c.other
        status := .ok}}

/-- Draw ReachableTime again when its time has come. -/
def redraw (rand : BitVec 32) : Work :=
  if due w.ctx.nowMs w.ctx.reachableRedrawMs then
    {w with ctx := {w.ctx with
      reachableMs := drawReachable (w.ctx.baseReachable cfg) rand
      reachableRedrawMs := w.ctx.nowMs+cfg.nd6ReachableRedrawMs}}
  else w

/-- Discard a prefix whose time is over; the second part counts what a sweep discards. -/
def expirePrefix (s : Work×BitVec 8) (i : ℕ) : Work×BitVec 8 :=
  let p := s.1.prefixAt i
  if p.used && !p.infinite && due s.1.ctx.nowMs p.invalidateMs then
    ({s.1.setPrefix i .zero with ctx := {s.1.ctx with prefixes := s.1.ctx.prefixes-1}},s.2+1)
  else s

/-- Discard a router whose time is over. -/
def expireRouter (s : Work×BitVec 8) (i : ℕ) : Work×BitVec 8 :=
  let r := s.1.router i
  if r.used && due s.1.ctx.nowMs r.invalidateMs then (dropRouter cfg s.1 i,s.2+1) else s

/-- Discard a destination whose neighbor is gone. -/
def expireDestination (s : Work×BitVec 8) (i : ℕ) : Work×BitVec 8 :=
  let d := s.1.destination i
  if d.used && decide (d.neighbor < cfg.nd6Neighbors) && !(s.1.neighbor d.neighbor).used then
    (dropDestination s.1 i,s.2+1)
  else s

/-- A reachable neighbor goes stale and a delayed one is probed, when due. -/
def Neighbor.aged (nowMs : BitVec 32) : Neighbor :=
  if !n.used || !due nowMs n.nextEventMs then n
  else if n.state=.reachable then {n with state := .stale,probes := 0,nextEventMs := nowMs}
  else if n.state=.delay then {n with state := .probe,probes := 0,nextEventMs := nowMs}
  else n

def ageNeighbor (i : ℕ) : Work := w.setNeighbor i ((w.neighbor i).aged w.ctx.nowMs)

/-- The solicitations of a neighbor have all gone unanswered. -/
def Neighbor.failed (nowMs : BitVec 32) : Bool :=
  let cap := if n.state=.incomplete then cfg.nd6MaxMulticastSolicit else cfg.nd6MaxUnicastSolicit
  n.used && due nowMs n.nextEventMs && (n.state==.incomplete || n.state==.probe) && decide (cap≤n.probes)

/-- Hand back one frame of a neighbor that failed, or delete it; the last part says that a frame was reported. -/
def failNeighbor (s : (Work×BitVec 8)×Bool) (i : ℕ) : (Work×BitVec 8)×Bool :=
  let n := s.1.1.neighbor i
  if s.2 || !n.failed cfg s.1.1.ctx.nowMs then s
  else if n.pendingHead < cfg.nd6Pending then ((releasePending cfg s.1.1 n.pendingHead,s.1.2),true)
  else ((freeNeighbor cfg s.1.1 i,s.1.2+1),false)

/-- Hand back one frame whose time is over, unless one was reported. -/
def expirePending (s : Work×Bool) : Work×Bool :=
  if s.2 then s
  else match firstIndex cfg.nd6Pending fun i => (s.1.pending i).used && due s.1.ctx.nowMs (s.1.pending i).deadlineMs with
    | none => s
    | some pi => (releasePending cfg s.1 pi,true)

/-- A solicitation for a neighbor is due. -/
def Neighbor.asks (nowMs : BitVec 32) : Bool :=
  n.used && due nowMs n.nextEventMs && (n.state==.incomplete || n.state==.probe)

/-- Report one solicitation that is due, unless a frame was reported. -/
def solicitNeighbor (s : Work×Bool) : Work×Bool :=
  if s.2 then s
  else match firstIndex cfg.nd6Neighbors fun i => (s.1.neighbor i).asks s.1.ctx.nowMs with
    | none => s
    | some i =>
      let n := s.1.neighbor i
      let u := s.1.setNeighbor i {n with probes := n.probes+1,nextEventMs := s.1.ctx.nowMs+s.1.ctx.retrans cfg}
      (reportNeighbor {u with io := {u.io with solicit := true,multicast := n.state==.incomplete,target := some n.addr}} i,true)

/-- The soonest deadline of one table. -/
def soonestOf (n : ℕ) (deadline : ℕ → Option (BitVec 32)) (nowMs : BitVec 32) (soonest : BitVec 32) : BitVec 32 :=
  (List.range n).foldl (fun best i => match deadline i with
    | none => best
    | some d => if remaining nowMs d<best then remaining nowMs d else best) soonest

/-- The soonest deadline any table holds. -/
def soonest : BitVec 32 :=
  let now := w.ctx.nowMs
  let n := soonestOf cfg.nd6Neighbors (fun i =>
    if (w.neighbor i).used && hasTimer (w.neighbor i) then some (w.neighbor i).nextEventMs else none) now 0xFFFFFFFF
  let p := soonestOf cfg.nd6Prefixes (fun i =>
    if (w.prefixAt i).used && !(w.prefixAt i).infinite then some (w.prefixAt i).invalidateMs else none) now n
  let r := soonestOf cfg.nd6Routers (fun i => if (w.router i).used then some (w.router i).invalidateMs else none) now p
  soonestOf cfg.nd6Pending (fun i => if (w.pending i).used then some (w.pending i).deadlineMs else none) now r

/-- Discard what is over in the three lists. -/
def expireLists : Work×BitVec 8 :=
  let s := (List.range cfg.nd6Prefixes).foldl expirePrefix (w,0)
  let s := (List.range cfg.nd6Routers).foldl (expireRouter cfg) s
  (List.range cfg.nd6Destinations).foldl (expireDestination cfg) s

/-- Walk the reachability machine and report one event; how many rows went, and whether there is a report. -/
def reachability (s : Work×BitVec 8) : (Work×BitVec 8)×Bool :=
  let w := (List.range cfg.nd6Neighbors).foldl ageNeighbor s.1
  let f := (List.range cfg.nd6Neighbors).foldl (failNeighbor cfg) ((w,s.2),false)
  let r := solicitNeighbor cfg (expirePending cfg (f.1.1,f.2))
  ((r.1,f.1.2),r.2)

/-- Age every table and report one event, `nd6_sweep`. -/
def sweep (rand : BitVec 32) : Work :=
  let r := reachability cfg (expireLists cfg (redraw cfg w rand))
  let u := r.1.1
  let best := soonest cfg u
  {u with io := {u.io with
    nextEventMs := u.ctx.nowMs+(if best=0xFFFFFFFF then 0 else best)
    expired := r.1.2
    status := if r.1.2≠0 ∨ r.2=true then .ok else .busy}}

/-- Run the reachability machine and every timer, `idemip_nd6_tick`. -/
def tick (nowMs rand : BitVec 32) : Work :=
  let u := {w with io := {w.io with
    status := .err
    expired := 0
    solicit := false
    multicast := false
    target := none
    neighbor := none8
    pending := none8
    desc := 0
    len := 0}}
  if !w.ctx.ready then u else sweep cfg (u.latch nowMs) rand

/-- A call with its operands. -/
inductive Call
  | neighborFind (a : NeighborArgs)
  | neighborSet (a : NeighborArgs)
  | neighborConfirm (index : ℕ) (nowMs : BitVec 32)
  | neighborUsed (index : ℕ) (nowMs : BitVec 32)
  | neighborRemove (index : ℕ) (nowMs : BitVec 32)
  | destFind (a : DestArgs)
  | destSet (a : DestArgs)
  | prefixSet (a : PrefixArgs)
  | prefixOnLink (a : PrefixArgs)
  | routerSet (a : RouterArgs)
  | routerSelect (nowMs : BitVec 32)
  | pendingPush (a : PendingArgs)
  | pendingPop (neighbor : ℕ) (nowMs : BitVec 32)
  | paramsSet (a : ParamsArgs)
  | tick (nowMs rand : BitVec 32)

def step : Call → Work
  | .neighborFind a => neighborFind cfg w a
  | .neighborSet a => neighborSet cfg w a
  | .neighborConfirm index nowMs => neighborConfirm cfg w index nowMs
  | .neighborUsed index nowMs => neighborUsed cfg w index nowMs
  | .neighborRemove index nowMs => neighborRemove cfg w index nowMs
  | .destFind a => destFind cfg w a
  | .destSet a => destSet cfg w a
  | .prefixSet a => prefixSet cfg w a
  | .prefixOnLink a => prefixOnLink cfg w a
  | .routerSet a => routerSet cfg w a
  | .routerSelect nowMs => routerSelect cfg w nowMs
  | .pendingPush a => pendingPush cfg w a
  | .pendingPop neighbor nowMs => pendingPop cfg w neighbor nowMs
  | .paramsSet a => paramsSet cfg w a
  | .tick nowMs rand => tick cfg w nowMs rand

end IdemIp.Nd6
