import IdemIp.Config
import IdemIp.DnsNames
import IdemIp.IndexChain
import IdemIp.StepRun

/-!
# The resolver, `dns.c`

A question waits in a slot of its own until a response answers it or its tries run
out. The slot keeps the index of the server it was sent to, and the name it asks about
stands in the name region of the same index. Answers are cached with their names.
-/

namespace IdemIp.Dns

open IndexChain

/-- What a question is doing, `IdemIpDnsQueryState`. -/
inductive QueryState
  | free | new | sent | done | failed
deriving DecidableEq

/-- What a cached answer is, `IdemIpDnsEntryState`. -/
inductive EntryState
  | free | valid | negative
deriving DecidableEq

/-- One outstanding question, `DnsQuery`. -/
structure Query where
  (id srcPort type qclass : BitVec 16)
  deadlineMs : BitVec 32
  /-- Index of the server it goes to. -/
  server : ℕ
  retries : BitVec 8
  state : QueryState
  rcode : BitVec 8
  src : Octets
  (srcSet gaveUp : Bool)

/-- One cached answer, `DnsEntry`. -/
structure Entry where
  addr : Octets
  (expireMs ttlS : BitVec 32)
  type : BitVec 16
  state : EntryState
  ipv6 : Bool
  rcode : BitVec 8

/-- One server, `DnsServer`. -/
structure Server where
  addr : Octets
  zone : BitVec 32
  port : BitVec 16
  (ipv6 used : Bool)

def Query.zero : Query := ⟨0,0,0,0,0,0,0,.free,0,.zero,false,false⟩

def Entry.zero : Entry := ⟨.zero,0,0,0,.free,false,0⟩

def Server.zero : Server := ⟨.zero,0,0,false,false⟩

/-- What the resolver is configured with, `IdemIpDnsCfg`. -/
structure Settings where
  netif : ℕ
  retries : BitVec 8

/-- Results of the operand block, `DnsIo`, and the buffer `build` writes. -/
structure Io where
  status : Status
  addr : Octets
  ipv6 : Bool
  type : BitVec 16
  ttlS : BitVec 32
  query : ℕ
  rcode : BitVec 8
  answers : BitVec 16
  len : ℕ
  dst : Octets
  dstZone : BitVec 32
  (dstPort srcPort xid : BitVec 16)
  failed : Bool
  /-- The caller's buffer after `build`. -/
  out : Octets

def Io.zero : Io := ⟨.ok,.zero,false,0,0,0,0,0,0,.zero,0,0,0,0,false,.zero⟩

/-- The caller's borrow: the context, the four tables and the operand block. -/
structure Work where
  cfg : Option Settings
  /-- Server the next question goes to first. -/
  nextServer : ℕ
  query : ℕ → Query
  entry : ℕ → Entry
  /-- Name regions, the questions' first and the answers' behind them. -/
  name : ℕ → Octets
  server : ℕ → Server
  io : Io

/-- Operands of `set_server`, `DnsServerArgs`. -/
structure ServerArgs where
  index : ℕ
  addr : Option Octets
  zone : BitVec 32
  port : BitVec 16
  ipv6 : Bool

/-- Operands of `query`, `DnsQueryArgs`. -/
structure QueryArgs where
  name : Option Octets
  (type xid srcPort : BitVec 16)

/-- Operands of `lookup`, `DnsLookupArgs`. -/
structure LookupArgs where
  name : Option Octets
  type : BitVec 16

/-- Operands of `build`, `DnsBuildArgs`. -/
structure BuildArgs where
  out : Option Octets
  cap : ℕ
  src : Option Octets
  query : ℕ

/-- Operands of `input`, `DnsInputArgs`. -/
structure InputArgs where
  msg : Option Octets
  len : ℕ
  (src dst : Option Octets)
  (srcPort dstPort : BitVec 16)
  ipv6 : Bool

/-- The clock has come to a deadline, `dns_reached`. -/
def reached (nowMs deadlineMs : BitVec 32) : Bool := nowMs-deadlineMs≤0x7FFFFFFF

/-- Octets of an address of a family. -/
def addrLen (ipv6 : Bool) : ℕ := if ipv6 then 16 else 4

def Work.mapIo (w : Work) (f : Io → Io) : Work := {w with io := f w.io}

def Work.report (w : Work) (status : Status) : Work := w.mapIo fun io => {io with status}

def Work.setQuery (w : Work) (i : ℕ) (q : Query) : Work := {w with query := Function.update w.query i q}

def Work.setEntry (w : Work) (j : ℕ) (e : Entry) : Work := {w with entry := Function.update w.entry j e}

/-- Put a dotted form in a name region, `dns_name_store`. -/
def Work.nameStore (w : Work) (i : ℕ) (text : Octets) (n : ℕ) : Work :=
  {w with name := Function.update w.name i (text.padded n)}

/-- The loop of `dns_held_eq`. -/
def heldEqFrom (held text : Octets) : ℕ → ℕ → Bool
  | 0,_ => false
  | n+1,k => fold (held k)==fold (text k) && (text k==0 || heldEqFrom held text n (k+1))

/-- Octets before a terminator, within a bound. -/
def strlen (text : Octets) : ℕ → ℕ → ℕ
  | 0,k => k
  | n+1,k => if text k=0 then k else strlen text n (k+1)

variable (cfg : Config) (w : Work) (m : Message) (i : ℕ)

/-- Two dotted forms are the same, `dns_held_eq`. -/
def heldEq (held text : Octets) : Bool := heldEqFrom held text cfg.dnsNameBytes 0

/-- The question about a name and type, `dns_query_find`. -/
def queryFind (text : Octets) (type : BitVec 16) : Option ℕ :=
  firstIndex cfg.dnsQueries fun i =>
    decide ((w.query i).state≠.free ∧ (w.query i).type=type) && heldEq cfg (w.name i) text

/-- Free a question and its name, `dns_query_free`. -/
def queryFree : Work := (w.setQuery i .zero).nameStore i .zero 0

/-- The cached answer to a name and type, `dns_cache_find`. -/
def cacheFind (text : Octets) (type : BitVec 16) (nowMs : BitVec 32) : Option ℕ :=
  firstIndex cfg.dnsEntries fun j =>
    decide ((w.entry j).state≠.free ∧ (w.entry j).type=type) && !reached nowMs (w.entry j).expireMs &&
      heldEq cfg (w.name (cfg.dnsQueries+j)) text

/-- The loop of `dns_cache_slot`: a free slot, or the one closest to its end. -/
def cacheSlotFrom (w : Work) (nowMs : BitVec 32) : ℕ → ℕ → ℕ → ℕ
  | 0,_,oldest => oldest
  | n+1,j,oldest =>
    if (w.entry j).state=.free ∨ reached nowMs (w.entry j).expireMs then j
    else cacheSlotFrom w nowMs n (j+1) (if (w.entry j).expireMs-(w.entry oldest).expireMs≤0x7FFFFFFF then oldest else j)

/-- The slot an answer goes to, `dns_cache_slot`. -/
def cacheSlot (text : Octets) (type : BitVec 16) (nowMs : BitVec 32) : ℕ :=
  match cacheFind cfg w text type nowMs with
  | some j => j
  | none => cacheSlotFrom w nowMs cfg.dnsEntries 0 0

/-- Cache what a question got, under its name. -/
def cacheAnswer (nowMs : BitVec 32) (e : Entry) : Work :=
  let name := w.name i
  let j := cacheSlot cfg w name e.type nowMs
  (w.setEntry j e).nameStore (cfg.dnsQueries+j) name (strlen name (cfg.dnsNameBytes-1) 0)

/-- Cache that a name does not exist, `dns_cache_negative`. -/
def cacheNegative (type : BitVec 16) (rcode : BitVec 8) (nowMs : BitVec 32) : Work :=
  cacheAnswer cfg w i nowMs ⟨.zero,nowMs+cfg.dnsNegTtlS*1000,cfg.dnsNegTtlS,type,.negative,false,rcode⟩

/-- The first server at or after an index, `dns_server_used_from`. -/
def serverUsedFrom (start : ℕ) : Option ℕ :=
  ((List.range cfg.dnsServers).map fun k => (start+k) &&& (cfg.dnsServers-1)).find? fun i => (w.server i).used

/-- The life an answer is given, `dns_ttl_clamp`. -/
def ttlClamp (raw : BitVec 32) : BitVec 32 :=
  if raw &&& 0x80000000≠0 then 0 else if cfg.dnsTtlMaxS < raw then cfg.dnsTtlMaxS else raw

/-- Move a question on after a try without an answer, `dns_advance`. -/
def advance (tries : BitVec 8) (q : Query) : Query :=
  let next := serverUsedFrom cfg w ((q.server+1) &&& (cfg.dnsServers-1))
  let wrapped :=
    match next with
    | none => true
    | some i => decide (i≤q.server)
  let retries := if wrapped then q.retries+1 else q.retries
  if tries ≤ retries then {q with retries,state := .failed,gaveUp := true}
  else {q with retries,server := next.getD q.server,state := .new}

/-- Zero the borrow, `idemip_dns_clear`. -/
def clear : Work := ⟨none,0,fun _ => .zero,fun _ => .zero,fun _ => .zero,fun _ => .zero,.zero⟩

/-- Take the configuration, `idemip_dns_bind`. -/
def bind (settings : Option Settings) : Work :=
  match settings with
  | none => w.report .err
  | some s =>
    if cfg.netifCount ≤ s.netif ∨ s.retries=0 then w.report .err
    else {w with cfg := some s,nextServer := 0}.report .ok

/-- Put a server in the table, `idemip_dns_set_server`. -/
def setServer (a : ServerArgs) : Work :=
  match w.cfg,a.addr with
  | some _,some addr =>
    if cfg.dnsServers≤a.index then w.report .err
    else
      let s : Server := ⟨addr.padded (addrLen a.ipv6),a.zone,if a.port≠0 then a.port else 53,a.ipv6,true⟩
      {w with server := Function.update w.server a.index s}.report .ok
  | _,_ => w.report .err

/-- The slot a new question takes: the one that asked the same before, or a free one. -/
def querySlot (found : Option ℕ) : Option ℕ :=
  match found with
  | some i => some i
  | none => firstIndex cfg.dnsQueries fun i => decide ((w.query i).state=.free)

/-- A question is on its way. -/
def Query.outstanding (q : Query) : Bool := decide (q.state=.new ∨ q.state=.sent)

/-- Report the slot of a question. -/
def Work.slotted : Work :=
  w.mapIo fun io => {io with query := i,xid := (w.query i).id,srcPort := (w.query i).srcPort,status := .ok}

/-- A question nobody was asked yet, to start at the next server there is. -/
def fresh (a : QueryArgs) : Query :=
  ⟨a.xid,a.srcPort,a.type,1,0,(serverUsedFrom cfg w w.nextServer).getD w.nextServer,0,.new,0,.zero,false,false⟩

/-- Put a question in a slot. The one after it starts at the server behind. -/
def occupy (a : QueryArgs) (name : Octets) (n i : ℕ) : Work :=
  let first := serverUsedFrom cfg w w.nextServer
  {(w.setQuery i (fresh cfg w a)).nameStore i name n with
    nextServer := (first.map fun s => (s+1) &&& (cfg.dnsServers-1)).getD w.nextServer}

/-- Register a question, `dns_query_register`. -/
def queryRegister (a : QueryArgs) : Work :=
  let w := w.mapIo fun io => {io with query := cfg.dnsQueries}
  if a.type≠1 ∧ a.type≠28 then w.report .err
  else if a.srcPort≠53 ∧ a.srcPort<1024 then w.report .err
  else
    match a.name with
    | none => w.report .err
    | some name =>
      match textWireLen name with
      | none => w.report .err
      | some (_,n) =>
        let found := queryFind cfg w name a.type
        match found.filter fun i => (w.query i).outstanding with
        | some i => w.slotted i
        | none =>
          match querySlot cfg w found with
          | none => w.report .busy
          | some i => (occupy cfg w a name n i).slotted i

/-- Ask a question, `idemip_dns_query`. -/
def query (a : QueryArgs) : Work :=
  if w.cfg.isNone then w.report .err else queryRegister cfg w a

/-- Report the question that works on a name. -/
def Work.working (pending : Option ℕ) : Work :=
  w.mapIo fun io => {io with query := pending.getD io.query,rcode := (pending.map fun i => (w.query i).rcode).getD io.rcode}

/-- Answer from the cache, `dns_lookup_cached`. -/
def lookupCached (a : LookupArgs) (nowMs : BitVec 32) : Work :=
  let w := w.mapIo fun io =>
    {io with addr := .zero,ipv6 := false,type := 0,ttlS := 0,rcode := 0,failed := false,query := cfg.dnsQueries}
  match a.name with
  | none => w.report .err
  | some name =>
    if name 0=0 then w.report .err
    else
      let pending := queryFind cfg w name a.type
      let w := w.working pending
      match pending.filter fun i => (w.query i).gaveUp with
      | some i => (queryFree (w.mapIo fun io => {io with failed := true}) i).report .err
      | none =>
        match cacheFind cfg w name a.type nowMs with
        | none => w.report .busy
        | some j =>
          let e := w.entry j
          let w := w.mapIo fun io => {io with type := e.type,ttlS := e.ttlS}
          if e.state=.negative then (w.mapIo fun io => {io with rcode := e.rcode}).report .err
          else (w.mapIo fun io => {io with addr := e.addr,ipv6 := e.ipv6}).report .ok

/-- Look a name up, `idemip_dns_lookup`. -/
def lookup (a : LookupArgs) (nowMs : BitVec 32) : Work :=
  if w.cfg.isNone then w.report .err else lookupCached cfg w a nowMs

/-- Octets of the label at an offset of a dotted form. -/
def labelRun (name : Octets) (text : ℕ) : ℕ → ℕ → ℕ
  | 0,_ => 0
  | n+1,k => if k<text ∧ name k≠dot then labelRun name text n (k+1)+1 else 0

/-- The loop of `dns_build_query` that writes the labels, with the offset behind them. -/
def writeLabels (name : Octets) (text : ℕ) : ℕ → Octets → ℕ → ℕ → Octets × ℕ
  | 0,out,i,_ => (out,i)
  | n+1,out,i,k =>
    if k<text then
      let label := labelRun name text text k
      if label=0 then (out,i)
      else
        let out := (out.wr8 i (BitVec.ofNat 8 label)).copy (i+1) (name.drop k) label
        let k := k+label
        writeLabels name text n out (i+1+label) (if k<text ∧ name k=dot then k+1 else k)
    else (out,i)

/-- A question as it goes on the wire, with its length. -/
def question (q : Query) (name : Octets) (text : ℕ) (out : Octets) : Octets × ℕ :=
  let out := ((out.wr16 0 q.id).wr16 2 0x0100).wr16 4 1
  let out := ((out.wr16 6 0).wr16 8 0).wr16 10 0
  let (out,i) := writeLabels name text text out 12 0
  let out := out.wr8 i 0
  ((out.wr16 (i+1) q.type).wr16 (i+3) q.qclass,i+5)

/-- The retry interval doubled for each try, up to a bound. -/
def backoff : ℕ → BitVec 32 → BitVec 32
  | 0,wait => wait
  | n+1,wait => if wait < cfg.dnsRetryMaxMs then backoff n (wait <<< 1) else wait

/-- A question as it waits for the response of a server: the address it left from, and the next deadline. -/
def launched (s : Server) (a : BuildArgs) (nowMs : BitVec 32) (q : Query) : Query :=
  let wait := backoff cfg q.retries.toNat cfg.dnsRetryMs
  let wait := if cfg.dnsRetryMaxMs<wait then cfg.dnsRetryMaxMs else wait
  let src :=
    match a.src with
    | none => q.src
    | some src => fun k => if k<addrLen s.ipv6 then src k else q.src k
  {q with src,srcSet := a.src.isSome,state := .sent,deadlineMs := nowMs+wait}

/-- Write a question out, `dns_build_query`. -/
def buildQuery (a : BuildArgs) (nowMs : BitVec 32) : Work :=
  match a.out with
  | none => w.report .err
  | some out =>
    if cfg.dnsQueries≤a.query then w.report .err
    else
      let q := w.query a.query
      if q.state≠.new then w.report .err
      else
        match serverUsedFrom cfg w q.server with
        | none => w.report .busy
        | some si =>
          let q := {q with server := si}
          let w := w.setQuery a.query q
          match textWireLen (w.name a.query) with
          | none => w.report .err
          | some (wire,text) =>
            let need := 12+wire+4
            if a.cap<need ∨ 512<need then w.report .err
            else
              let (out,len) := question q (w.name a.query) text out
              let s := w.server si
              (w.setQuery a.query (launched cfg s a nowMs q)).mapIo fun io =>
                {io with
                  len,dst := s.addr,dstZone := s.zone,dstPort := s.port,ipv6 := s.ipv6,srcPort := q.srcPort,xid := q.id,
                  type := q.type,query := a.query,out,status := .ok}

/-- Put a question on the wire, `idemip_dns_build`. -/
def build (a : BuildArgs) (nowMs : BitVec 32) : Work :=
  let w := w.mapIo fun io => {io with len := 0}
  if w.cfg.isNone then w.report .err else buildQuery cfg w a nowMs

/-- The datagram carries the addresses and ports of a question, and the question was sent. -/
def addressed (a : InputArgs) (src : Octets) (id : BitVec 16) (i : ℕ) : Bool :=
  let q := w.query i
  let s := w.server q.server
  decide (q.state=.sent ∧ q.id=id ∧ q.srcPort=a.dstPort ∧ q.server < cfg.dnsServers ∧ s.used=true ∧ s.ipv6=a.ipv6 ∧
    s.port=a.srcPort) && s.addr.bytesEq src (addrLen a.ipv6) &&
    !(q.srcSet && a.dst.any fun dst => !q.src.bytesEq dst (addrLen a.ipv6))

/-- A message echoes a question: its name, type and class. -/
def echoes : Except Stop Bool := do
  let same ← nameEqText m 12 (w.name i)
  if same=false then return false
  else
    match ← nameEnd m 12 with
    | none => return false
    | some qend =>
      if m.len<qend+4 then return false
      else do
        let type ← m.rd16 qend
        let qclass ← m.rd16 (qend+2)
        return type==(w.query i).type && qclass==(w.query i).qclass

/-- The loop of `dns_match`. -/
def matchFrom (w : Work) (a : InputArgs) (m : Message) (src : Octets) (id : BitVec 16) : ℕ → ℕ → Except Stop (Option ℕ)
  | 0,_ => return none
  | n+1,i =>
    if addressed cfg w a src id i then do
      let same ← echoes w m i
      if same then return some i else matchFrom w a m src id n (i+1)
    else matchFrom w a m src id n (i+1)

/-- The question a message answers, `dns_match`. -/
def matchQuery (a : InputArgs) (m : Message) (src : Octets) : Except Stop (Option ℕ) := do
  let id ← m.rd16 0
  matchFrom cfg w a m src id cfg.dnsQueries 0

/-- A record is of class IN and its owner is the name of interest. -/
def ofInterest (rclass : BitVec 16) (owner interest : ℕ) : Except Stop Bool :=
  if rclass=1 then nameEqWire m owner interest else .ok false

/-- The loop of `dns_answers_read`. An answer found before a record that does not parse comes without its life. -/
def answersFrom (m : Message) (type : BitVec 16) (want : ℕ) : ℕ → ℕ → ℕ → Option (Octets × BitVec 32) →
    Except Stop (Option (Octets × BitVec 32))
  | 0,_,_,found => return found
  | n+1,owner,interest,found => do
    match ← nameEnd m owner with
    | none => return found.map fun f => (f.1,0)
    | some fixed =>
      if m.len<fixed+10 then return found.map fun f => (f.1,0)
      else do
        let rtype ← m.rd16 fixed
        let rclass ← m.rd16 (fixed+2)
        let rttl ← m.rd32 (fixed+4)
        let rdlen ← m.rd16 (fixed+8)
        let rdata := fixed+10
        let next := rdata+rdlen.toNat
        if m.len<next then return found.map fun f => (f.1,0)
        else do
          let same ← ofInterest m rclass owner interest
          if same=false then answersFrom m type want n next interest found
          else if rtype=type ∧ rdlen.toNat=want then
            match found with
            | none => do
              let addr ← m.copy rdata want
              answersFrom m type want n next interest (some (addr,ttlClamp cfg rttl))
            | some (addr,ttl) =>
              answersFrom m type want n next interest (some (addr,if ttlClamp cfg rttl<ttl then ttlClamp cfg rttl else ttl))
          else if rtype=5 ∧ found.isNone ∧ rdlen≠0 then answersFrom m type want n next rdata found
          else answersFrom m type want n next interest found

/-- The address the answers give for the name asked about, `dns_answers_read`. -/
def answersRead (start : ℕ) (ancount type : BitVec 16) : Except Stop (Option (Octets × BitVec 32)) :=
  answersFrom cfg m type (if type=28 then 16 else 4) ancount.toNat start 12 none

/-- Take a response with an error code: the name does not exist, or another server is asked. -/
def takeError (tries : BitVec 8) (nowMs : BitVec 32) (i : ℕ) (q : Query) : Work :=
  let w := w.mapIo fun io => {io with answers := 0}
  if q.rcode=3 then (cacheNegative cfg (w.setQuery i {q with state := .failed}) i q.type q.rcode nowMs).report .ok
  else (w.setQuery i (advance cfg w tries q)).report .ok

/-- Take a response without one, for the address it gives. -/
def takeAnswers (ancount : BitVec 16) (nowMs : BitVec 32) (i : ℕ) (q : Query) :
    Except Stop Work := do
  match ← nameEnd m 12 with
  | none => return w
  | some qend =>
    match ← answersRead cfg m (qend+4) ancount q.type with
    | none => return (w.setQuery i {q with state := .failed}).report .ok
    | some (addr,ttl) =>
      let ipv6 := q.type==28
      let w := w.mapIo fun io => {io with addr,type := q.type,ipv6,ttlS := ttl}
      let w := w.setQuery i {q with state := .done}
      if ttl≠0 then return (cacheAnswer cfg w i nowMs ⟨addr,nowMs+ttl*1000,ttl,q.type,.valid,ipv6,0⟩).report .ok
      else return w.report .ok

/-- Take the response to a question, the part of `dns_take` behind `dns_match`. -/
def takeMatched (flags : BitVec 16) (tries : BitVec 8) (nowMs : BitVec 32) (i : ℕ) :
    Except Stop Work := do
  let ancount ← m.rd16 6
  let w := w.mapIo fun io => {io with query := i,xid := (w.query i).id,srcPort := (w.query i).srcPort,answers := ancount}
  if flags &&& 0x0200≠0 then return w.mapIo fun io => {io with answers := 0}
  else
    let q := {w.query i with rcode := (flags &&& 0x000F).setWidth 8}
    let w := (w.setQuery i q).mapIo fun io => {io with rcode := q.rcode}
    if q.rcode≠0 then return takeError cfg w tries nowMs i q else takeAnswers cfg w m ancount nowMs i q

/-- Take one response, `dns_take`. -/
def take (a : InputArgs) (tries : BitVec 8) (nowMs : BitVec 32) : Except Stop Work :=
  let w := w.mapIo fun io =>
    {io with
      addr := .zero,ipv6 := false,type := 0,ttlS := 0,answers := 0,rcode := 0,query := cfg.dnsQueries,status := .err}
  match a.msg,a.src with
  | some octets,some src =>
    if a.len<17 ∨ 512<a.len then return w
    else do
      let m : Message := ⟨octets,a.len⟩
      let flags ← m.rd16 2
      if flags &&& 0x8000=0 then return w
      else if (flags &&& 0x7800) >>> 11≠0 then return w
      else do
        let qdcount ← m.rd16 4
        if qdcount≠1 then return w
        else
          match ← matchQuery cfg w a m src with
          | none => return w
          | some i => takeMatched cfg w m flags tries nowMs i
  | _,_ => return w

/-- A response comes in, `idemip_dns_input`. A read outside the message ends the call there. -/
def input (a : InputArgs) (nowMs : BitVec 32) : Work :=
  match w.cfg with
  | none => w.report .err
  | some s =>
    match take cfg w a s.retries nowMs with
    | .ok w => w
    | .error _ => w

/-- A question past its deadline moves on, the first loop of `dns_sweep`. -/
def sweepQuery (tries : BitVec 8) (nowMs : BitVec 32) (q : Query) : Query :=
  if q.state≠.sent ∨ reached nowMs q.deadlineMs=false then q else advance cfg w tries q

/-- Run the deadlines, `dns_sweep`. -/
def sweep (tries : BitVec 8) (nowMs : BitVec 32) : Work :=
  let ended j := decide ((w.entry j).state=.valid) && reached nowMs (w.entry j).expireMs
  let query i := if i < cfg.dnsQueries then sweepQuery cfg w tries nowMs (w.query i) else w.query i
  let entry j := if decide (j < cfg.dnsEntries) && ended j then .zero else w.entry j
  let name i :=
    if decide (cfg.dnsQueries ≤ i ∧ i < cfg.dnsQueries+cfg.dnsEntries) && ended (i-cfg.dnsQueries) then .zero else w.name i
  {w with query,entry,name}.report .ok

/-- The clock moves on, `idemip_dns_tick`. -/
def tick (nowMs : BitVec 32) : Work :=
  match w.cfg with
  | none => w.report .err
  | some s => sweep cfg w s.retries nowMs

/-- Drop a question, `idemip_dns_cancel`. -/
def cancel : Work :=
  if w.cfg.isNone ∨ cfg.dnsQueries ≤ i then w.report .err
  else if (w.query i).state=.free then w.report .err
  else (queryFree w i).report .ok

/-- Empty the cache, `idemip_dns_flush`. -/
def flush : Work :=
  if w.cfg.isNone then w.report .err
  else
    let entry j := if j < cfg.dnsEntries then .zero else w.entry j
    let name i := if cfg.dnsQueries ≤ i ∧ i < cfg.dnsQueries+cfg.dnsEntries then .zero else w.name i
    {w with entry,name}.report .ok

/-- A call with its operands. -/
inductive Call
  | bind (settings : Option Settings)
  | setServer (a : ServerArgs)
  | query (a : QueryArgs)
  | lookup (a : LookupArgs) (nowMs : BitVec 32)
  | build (a : BuildArgs) (nowMs : BitVec 32)
  | input (a : InputArgs) (nowMs : BitVec 32)
  | tick (nowMs : BitVec 32)
  | cancel (query : ℕ)
  | flush

def step : Call → Work
  | .bind settings => bind cfg w settings
  | .setServer a => setServer cfg w a
  | .query a => query cfg w a
  | .lookup a nowMs => lookup cfg w a nowMs
  | .build a nowMs => build cfg w a nowMs
  | .input a nowMs => input cfg w a nowMs
  | .tick nowMs => tick cfg w nowMs
  | .cancel i => cancel cfg w i
  | .flush => flush cfg w

end IdemIp.Dns
