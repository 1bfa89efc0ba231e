import IdemIp.Dhcp4
import IdemIp.Ip4Frag

/-!
# Runs of the DHCP client

A run is followed with what the context does not keep: when the request of an exchange
went out, when its lease ends, what was handed to the caller since the state was entered
and when an address was last declined. A DHCPRELEASE or DHCPDECLINE stays owed until
`build` writes it, as long as no answer to a request is taken.
-/

namespace IdemIp.Dhcp4

section Runs

open StepRun Option Nat

/-- What a run leaves behind beside the context. -/
structure Past where
  /-- When the exchange started or its last message was built. -/
  asked : ℕ := 0
  /-- The end of the lease, unless it has none. -/
  ends : Option ℕ := none
  /-- The message last built in this state. -/
  built : Option MsgType := none
  declined : Option ℕ := none

/-- A call at an instant goes by. -/
def Past.next (p : Past) (t : ℕ) (call : Call) (st : Status) (c c' : Ctx) : Past where
  asked :=
    match call,st with
    | .start _,.ok | .build _ _ _,.ok => c'.nowMs
    | _,_ => p.asked
  ends :=
    if c'.state=.bound ∧ c.state≠.bound then
      if c'.leaseS=0xFFFFFFFF then none else some (p.asked+1000*c'.leaseS.toNat)
    else p.ends
  built :=
    match call,st with
    | .build _ _ _,.ok => c.owed
    | _,_ => if c'.state=c.state then p.built else none
  declined :=
    match call,st with
    | .decline,.ok => some t
    | _,_ => p.declined

/-- A client and its past. -/
structure Trace where
  work : Work := {}
  past : Past := {}

/-- A call at an instant. -/
def trace (cfg : Config) (s : Trace) (e : ℕ × Call) : Trace :=
  let w := step cfg s.work (BitVec.ofNat 32 e.1) e.2
  ⟨w,s.past.next e.1 e.2 w.io.status s.work.ctx w.ctx⟩

/-- The options of the message a call brings. -/
def Call.options : Call → Option Opts
  | .input (some m) len => parse m len
  | _ => none

/-- The call binds. -/
def Call.binds : Call → Bool
  | .bind _ => true
  | _ => false

/-- The call builds. -/
def Call.builds : Call → Bool
  | .build _ _ _ => true
  | _ => false

/-- The call starts. -/
def Call.starts : Call → Bool
  | .start _ => true
  | _ => false

/-- The call ticks. -/
def Call.ticks : Call → Bool
  | .tick => true
  | _ => false

/-- The clock is read within a turn of its last reading. -/
def Paced (s : Trace) (e : ℕ × Call) : Prop :=
  s.work.ctx.nowMs≤e.1 ∧ e.1 < s.work.ctx.nowMs+2^32 ∧ e.1<2^63

variable {cfg : Config} {c c' : Ctx} {p : Past} {t : ℕ} {call : Call} {st : Status}

/-- What one call keeps, a paced run keeps, and where it shows on the way. -/
theorem along_moves {ok good : Trace → ℕ × Call → Prop} {inv : Ctx → Past → Prop} (hi : inv {} {})
    (hst : ∀ s e c' st,Moves s.work.ctx (BitVec.ofNat 32 e.1) e.2 st c' → inv s.work.ctx s.past → ok s e →
      inv c' (s.past.next e.1 e.2 st s.work.ctx c'))
    (hg : ∀ s e,inv s.work.ctx s.past → ok s e → good s e) {es : List (ℕ × Call)}
    (h : Along (trace cfg) ok {} es) : Along (trace cfg) good {} es :=
  have hk : ∀ s e,inv s.work.ctx s.past → ok s e → inv (trace cfg s e).work.ctx (trace cfg s e).past :=
    fun s e hs hok => hst s e _ _ (step_moves cfg s.work _ e.2) hs hok
  Along.imp hk hg hi h

/-- What the clock and the record of an exchange are. -/
structure Clocked (c : Ctx) : Prop where
  reads : Ms.Reads c.tickMs c.tickHi c.nowMs
  early : c.nowMs<2^63

/-- A reading in time is the clock. -/
theorem Clocked.read (h : Clocked c) (hle : c.nowMs≤t) (hlt : t < c.nowMs+2^32) (ht : t<2^63) :
    (c.read (BitVec.ofNat 32 t)).nowMs=t ∧ Clocked (c.read (BitVec.ofNat 32 t)) := by
  obtain ⟨hr,hn⟩ := h.reads.extend hle hlt (by omega)
  have hnow' : (c.read (BitVec.ofNat 32 t)).nowMs=t := hn
  exact ⟨hn,⟨by rw [hnow']; exact hr,by omega⟩⟩

/-- No turn touches the clock. -/
theorem Turn.clock (h : Turn c c') : c'.nowMs=c.nowMs ∧ (Clocked c → Clocked c') := by
  cases h <;> exact ⟨rfl,fun h => ⟨h.reads,h.early⟩⟩

theorem Moves.clocked (hm : Moves c (BitVec.ofNat 32 t) call st c') (h : Clocked c) (hle : c.nowMs≤t)
    (hlt : t < c.nowMs+2^32) (ht : t<2^63) : Clocked c' := by
  have hr := (h.read hle hlt ht).2
  cases hm with
  | waits | begins | informs | idles => exact ⟨hr.reads,hr.early⟩
  | runs hrn => exact (run_turn hrn).1.clock.2 hr
  | _ => exact ⟨h.reads,h.early⟩

/-- A call that leaves the context alone adds nothing. -/
theorem Past.next_kept (p : Past) (t : ℕ) (call : Call) (hst : st≠.ok) (c : Ctx) : p.next t call st c c=p := by
  have he : ¬(c.state=.bound ∧ c.state≠.bound) := fun h => h.2 h.1
  unfold Past.next
  rw [if_neg he,if_pos rfl]
  cases st <;> cases call <;> first | rfl | exact absurd rfl hst

/-- What the context and the past of a lease agree on. -/
structure Dated (c : Ctx) (p : Past) : Prop where
  clock : Clocked c
  asked : c.state≠.init → c.cfg≠none ∧ c.sentMs=p.asked ∧ p.asked ≤ c.nowMs
  ends : c.state.leased → timed c.leaseS ∧ p.ends=some c.expireMs ∨ c.leaseS=0xFFFFFFFF ∧ p.ends=none

/-- A lease in use is not bound away, names a duration, and ends with no message owed. -/
def Prompt (s : Trace) (e : ℕ × Call) : Prop :=
  Paced s e ∧ (e.2.binds → s.work.ctx.state.leased=false) ∧
    (∀ o∈e.2.options,o.msgType=some 5 → o.leaseS.getD s.work.ctx.leaseS≠0) ∧
    (e.2.ticks → s.work.ctx.state.leased → (∃ u∈s.past.ends,u≤e.1) → s.work.ctx.owed=none)

/-- A lease is dropped with its address, by a tick at its end at the latest. -/
def Expires (cfg : Config) (s : Trace) (e : ℕ × Call) : Prop :=
  let c := s.work.ctx
  let c' := (trace cfg s e).work.ctx
  (c.state.leased → c'.state.leased=false → c'.offeredIp=0) ∧
    (e.2.ticks → (c.state.leased → ∃ u∈s.past.ends,u≤e.1) → c'.state.leased=false)

theorem lease_ends (h : c.sentMs<2^63) {o : Opts} {m : Octets} (hz : o.leaseS.getD c.leaseS≠0) :
    (c.lease o m).expireMs=c.sentMs+1000*(c.lease o m).leaseS.toNat ∧
      (timed (c.lease o m).leaseS ∨ (c.lease o m).leaseS=0xFFFFFFFF) := by
  refine ⟨?_,?_⟩
  · change Ms.add c.sentMs (Ms.fromS (o.leaseS.getD c.leaseS))=_
    rw [Ms.fromS_eq]
    exact Ms.add_eq (by omega)
  · by_cases hi : o.leaseS.getD c.leaseS=0xFFFFFFFF
    · exact .inr hi
    · exact .inl (decide_eq_true ⟨hz,hi⟩)

/-- In INIT nothing is dated. -/
theorem Dated.init (h : Clocked c) (hs : c.state=.init) : Dated c p :=
  ⟨h,fun hne => absurd hs hne,fun hl => by rw [hs] at hl; cases hl⟩

/-- A lease goes on, and no other comes in its place. -/
theorem Dated.lasts (h : Dated c p) (hs : c'.leaseS=c.leaseS ∧ c'.expireMs=c.expireMs)
    (hls : c'.state.leased → c.state.leased) (hbn : c'.state=.bound → c.state=.bound)
    (hl : c'.state.leased) : timed c'.leaseS ∧ (p.next t call st c c').ends=some c'.expireMs ∨
      c'.leaseS=0xFFFFFFFF ∧ (p.next t call st c c').ends=none := by
  rw [hs.1,hs.2,show (p.next t call st c c').ends=p.ends from if_neg fun hb => hb.2 (hbn hb.1)]
  exact h.ends (hls hl)

/-- What leaves the lease and its exchange alone keeps their dates. -/
theorem Dated.carry (h : Dated c p) (hc : Clocked c') (hn : c.nowMs ≤ c'.nowMs)
    (hs : c'.cfg=c.cfg ∧ c'.sentMs=c.sentMs) (hls : c'.leaseS=c.leaseS ∧ c'.expireMs=c.expireMs)
    (hi : c'.state≠.init → c.state≠.init) (hl : c'.state.leased → c.state.leased)
    (hb : c'.state=.bound → c.state=.bound) (ha : (p.next t call st c c').asked=p.asked) :
    Dated c' (p.next t call st c c') := by
  refine ⟨hc,fun hne => ?_,h.lasts hls hl hb⟩
  obtain ⟨hst,hd,hp⟩ := h.asked (hi hne)
  rw [hs.1,hs.2,ha]
  exact ⟨hst,hd,le_trans hp hn⟩

theorem Dated.step (hm : Moves c (BitVec.ofNat 32 t) call st c') (h : Dated c p) (hle : c.nowMs≤t)
    (hlt : t < c.nowMs+2^32) (ht : t<2^63) (hz : ∀ o∈call.options,o.msgType=some 5 → o.leaseS.getD c.leaseS≠0) : Dated c' (p.next t call st c c') := by
  have hc := hm.clocked h.clock hle hlt ht
  have hn : c.nowMs≤(c.read (BitVec.ofNat 32 t)).nowMs := by rwa [(h.clock.read hle hlt ht).1]
  cases hm with
  | kept hstart hok htc =>
    rw [p.next_kept t call hok]
    exact h
  | bind | stops | refused | gives | spurns => exact .init hc rfl
  | waits a hstate | informs a hstate => exact .init hc hstate
  | begins a ip st u hcf hstate hst =>
    refine ⟨hc,fun _ => ⟨hcf,rfl,le_rfl⟩,fun hl => ?_⟩
    rcases hst with rfl|rfl <;> cases hl
  | selects htk hstate => exact ⟨hc,fun _ => h.asked (by rw [hstate]; nofun),nofun⟩
  | leases htk hsn hstate =>
    rename_i m len o
    have hne : c.state≠.init ∧ c.state≠.bound := by constructor <;> intro hs <;> rw [hs] at hstate <;> cases hstate
    obtain ⟨hcf,ha,hp⟩ := h.asked hne.1
    have hsent63 : (c.adopt o).sentMs<2^63 := by
      change c.sentMs<2^63
      omega
    obtain ⟨he,hk⟩ := lease_ends hsent63 (hz o htk.options htk.type)
    refine ⟨hc,fun _ => ⟨hcf,ha,hp⟩,fun _ => ?_⟩
    rw [he,show (c.adopt o).sentMs=p.asked from ha]
    have hen : (p.next t (.input (some m) len) .ok c ((c.adopt o).lease o m)).ends=_ := if_pos ⟨rfl,hne.2⟩
    rw [hen]
    rcases hk with htm|hin
    · exact .inl ⟨htm,if_neg (of_decide_eq_true htm).2⟩
    · exact .inr ⟨hin,if_pos hin⟩
  | writes m n u ho hm =>
    exact ⟨hc,fun hne => ⟨(h.asked hne).1,rfl,le_rfl⟩,h.lasts ⟨rfl,rfl⟩ (fun hs => hs) fun hs => hs⟩
  | informed | releases | declines =>
    exact h.carry hc le_rfl ⟨rfl,rfl⟩ ⟨rfl,rfl⟩ (fun hs => hs) (fun hs => hs) (fun hs => hs) rfl
  | idles => exact h.carry hc hn ⟨rfl,rfl⟩ ⟨rfl,rfl⟩ (fun hs => hs) (fun hs => hs) (fun hs => hs) rfl
  | runs hr =>
    cases (run_turn hr).1 with
    | asks u hu =>
      refine h.carry hc hn ⟨rfl,rfl⟩ ⟨rfl,rfl⟩ (fun _ => ?_) (fun hl => ?_) (fun hb => ?_) rfl
      · rcases hu with ⟨hs,-⟩|⟨hs,-⟩ <;> intro hi
        · exact State.noConfusion (hs.symm.trans hi)
        · cases (congrArg State.leased hi).symm.trans hs
      · rcases hu with ⟨-,rfl⟩|⟨hs,-⟩
        · cases hl
        · exact hs
      · rcases hu with ⟨-,rfl⟩|⟨-,rfl|rfl⟩ <;> cases hb
    | sends => exact h.carry hc hn ⟨rfl,rfl⟩ ⟨rfl,rfl⟩ (fun hs => hs) (fun hs => hs) (fun hs => hs) rfl
    | ends => exact .init hc rfl
    | quits hstate => exact .init hc hstate

theorem Dated.expires (hm : Moves c (BitVec.ofNat 32 t) call st c') (h : Dated c p) (hle : c.nowMs≤t)
    (hlt : t < c.nowMs+2^32) (ht : t<2^63) (hb : call.binds → c.state.leased=false)
    (hla : call.ticks → c.state.leased → (∃ u∈p.ends,u≤t) → c.owed=none) :
    (c.state.leased → c'.state.leased=false → c'.offeredIp=0) ∧
      (call.ticks → (c.state.leased → ∃ u∈p.ends,u≤t) → c'.state.leased=false) := by
  have hrd := (h.clock.read hle hlt ht).1
  -- at the end of a lease the clock ha
  have hh : call.ticks → c.state.leased → (∃ u∈p.ends,u≤t) →
      run (c.read (BitVec.ofNat 32 t))=some (c.read (BitVec.ofNat 32 t)).halt := by
    rintro htc hls ⟨u,hu,hdu⟩
    rcases h.ends hls with ⟨htm,he⟩|⟨-,he⟩
    · rw [mem_def,he,some.injEq] at hu
      refine run_late (hla htc hls ⟨u,mem_def.mpr (he.trans (congrArg some hu)),hdu⟩) hls htm ?_
      change c.expireMs≤(c.read (BitVec.ofNat 32 t)).nowMs
      omega
    · rw [he] at hu
      cases hu
  have hi : c.state=.init → c.state.leased → ∀ q : Prop,q := by
    intro hs hl
    rw [hs] at hl
    cases hl
  have hsm : c'.state=c.state → c.state.leased → c'.state.leased=false → c'.offeredIp=0 := by
    intro hs hl hl'
    rw [hs,hl] at hl'
    cases hl'
  cases hm with
  | kept hstart hok htc =>
    refine ⟨hsm rfl,fun hc hen => ?_⟩
    by_contra hls
    have hl : c.state.leased := by simpa using hls
    cases call with
    | tick => exact (h.asked fun hs => hi hs hl False).1 (htc rfl)
    | _ => cases hc
  | bind => exact ⟨fun hl => absurd (hl.symm.trans (hb rfl)) nofun,nofun⟩
  | stops | refused | gives | spurns => exact ⟨fun _ _ => rfl,nofun⟩
  | waits a hstate | informs a hstate | begins a ip st u hcf hstate hst => exact ⟨fun hl => hi hstate hl _,nofun⟩
  | selects htk hstate =>
    refine ⟨fun hl => ?_,nofun⟩
    rw [hstate] at hl
    cases hl
  | leases => exact ⟨nofun,nofun⟩
  | writes | informed | releases | declines => exact ⟨hsm rfl,nofun⟩
  | idles hr =>
    refine ⟨hsm rfl,fun _ hen => eq_false_of_ne_true fun hl => ?_⟩
    exact nomatch hr.symm.trans (hh rfl hl (hen hl))
  | runs hr =>
    have he : c.state.leased → (∃ u∈p.ends,u≤t) → c'.state.leased=false := by
      intro hl hu
      rw [some.inj (hr.symm.trans (hh rfl hl hu))]
      rfl
    have hd : c.state.leased=false → c'.state.leased=false := by
      intro hl
      cases (run_turn hr).1 with
      | asks u hu =>
        rcases hu with ⟨-,rfl⟩|⟨hs,-⟩
        · rfl
        · cases hs.symm.trans hl
      | ends => rfl
      | sends | quits => exact hl
    refine ⟨fun hl hl' => ?_,fun _ hen => ?_⟩
    · cases (run_turn hr).1 with
      | asks u hu =>
        rcases hu with ⟨hs,-⟩|⟨-,rfl|rfl⟩
        · cases (congrArg State.leased hs).symm.trans hl
        · cases hl'
        · cases hl'
      | ends => rfl
      | sends | quits => cases hl.symm.trans hl'
    · cases hl : c.state.leased with
      | true => exact he hl (hen hl)
      | false => exact hd hl

/-- Along every run that keeps to the conditions a lease is dropped at its end at the latest. -/
theorem run_expires (cfg : Config) (es : List (ℕ × Call)) (h : Along (trace cfg) Prompt {} es) :
    Along (trace cfg) (Expires cfg) {} es := by
  refine @along_moves cfg Prompt (Expires cfg) Dated (.init ⟨⟨rfl,rfl⟩,by decide⟩ rfl) (fun s e c' st hm hs hok => ?_) (fun s e hs hok => ?_) es h
  · obtain ⟨⟨hle,hlt,ht⟩,-,hzero,-⟩ := hok
    exact hs.step hm hle hlt ht hzero
  · obtain ⟨⟨hle,hlt,ht⟩,hbind,-,hlate⟩ := hok
    exact hs.expires (step_moves cfg s.work _ e.2) hle hlt ht hbind hlate

/-- While a request waits nothing else is sent, and a count of tries says that it was built. -/
def Asked (c : Ctx) (p : Past) : Prop :=
  c.state.asking → (∀ m,c.owed=some m → m=.request ∨ m=.release) ∧ (∀ m,c.sent=some m → m=.request) ∧
    (c.retries≠0 → p.built=some .request)

/-- An acknowledgment comes behind a try. -/
def Answered (s : Trace) (e : ℕ × Call) : Prop :=
  ∀ o∈e.2.options,o.msgType=some 5 → s.work.ctx.state.asking → s.work.ctx.retries≠0

/-- A lease begins with a message that comes behind a request. -/
def Requested (cfg : Config) (s : Trace) (e : ℕ × Call) : Prop :=
  (trace cfg s e).work.ctx.state=.bound → s.work.ctx.state≠.bound →
    (∃ o∈e.2.options,o.msgType=some 5) ∧ s.past.built=some .request

variable {n : BitVec 32} {w : Work}

theorem Asked.step (hm : Moves c n call st c') (h : Asked c p) : Asked c' (p.next t call st c c') := by
  cases hm with
  | kept hstart hok ht =>
    rw [p.next_kept t call hok]
    exact h
  | bind | stops | refused | gives | spurns | leases => exact nofun
  | waits a hstate | informs a hstate => exact fun hs => absurd (hs.symm.trans (congrArg State.asking hstate)) nofun
  | begins a ip u v hc hstate hst => rcases hst with rfl|rfl <;> exact nofun
  | selects => exact fun _ => ⟨fun m hm => .inl (some.inj hm).symm,nofun,fun hne => absurd rfl hne⟩
  | informed => exact fun _ => ⟨nofun,nofun,fun hne => absurd rfl hne⟩
  | writes m k u ho hm =>
    intro hs
    have hr : m=.request := ((h hs).1 m ho).resolve_right hm.1
    exact ⟨nofun,fun m' hm' => (some.inj hm').symm.trans hr,fun _ => ho.trans (congrArg some hr)⟩
  | releases =>
    exact fun hs => ⟨fun m hm => .inr (some.inj hm).symm,(h hs).2.1,fun hne => absurd rfl hne⟩
  | declines hstate => exact fun hs => absurd (hs.symm.trans (congrArg State.asking hstate)) nofun
  | idles =>
    exact fun hs => ⟨(h hs).1,(h hs).2.1,fun hne => (if_pos rfl).trans ((h hs).2.2 hne)⟩
  | runs hrn =>
    cases (run_turn hrn).1 with
    | asks => exact fun _ => ⟨fun m hm => .inl (some.inj hm).symm,fun m hm => (some.inj hm).symm,
        fun hne => absurd rfl hne⟩
    | sends m hm =>
      intro hs
      have hsn : m=c.sent := hm.resolve_right fun hsl => absurd (hs.symm.trans (congrArg State.asking hsl.2)) nofun
      have hr : ∀ m',m=some m' → m'=.request := fun m' hm' => (h hs).2.1 m' (hsn.symm.trans hm')
      exact ⟨fun m' hm' => .inl (hr m' hm'),hr,fun hne => (if_pos rfl).trans ((h hs).2.2 hne)⟩
    | ends => exact nofun
    | quits hstate => exact fun hs => absurd (hs.symm.trans (congrArg State.asking hstate)) nofun

/-- A lease begins in a request's state, with an acknowledgment. -/
theorem Moves.bound (hm : Moves c n call st c') (hb : c'.state=.bound) (hne : c.state≠.bound) :
    c.state.asking ∧ ∃ o∈call.options,o.msgType=some 5 := by
  cases hm with
  | leases ht hsn hs => exact ⟨hs,_,ht.options,ht.type⟩
  | bind | stops | refused | gives | spurns | selects => cases hb
  | begins a ip u v hc hs hst => rcases hst with rfl|rfl <;> cases hb
  | runs hr =>
    cases (run_turn hr).1 with
    | asks u hu => rcases hu with ⟨-,rfl⟩|⟨-,rfl|rfl⟩ <;> cases hb
    | ends => cases hb
    | sends | quits => exact absurd hb hne
  | kept | waits | informed | writes | releases | declines | informs | idles => exact absurd hb hne

/-- Along every run in which an acknowledgment comes behind a try, a lease begins behind a request that was built. -/
theorem run_requested (cfg : Config) (es : List (ℕ × Call)) (h : Along (trace cfg) Answered {} es) :
    Along (trace cfg) (Requested cfg) {} es := by
  refine @along_moves cfg Answered (Requested cfg) Asked nofun (fun s e c' st hm hs _ => hs.step hm) (fun s e hs hok => ?_) es h
  intro hb hne
  obtain ⟨hask,o,ho,htype⟩ := (step_moves cfg s.work _ e.2).bound hb hne
  exact ⟨⟨o,ho,htype⟩,(hs hask).2.2 (hok o ho htype hask)⟩

/-- A message that is refused leaves no trace in the context. -/
theorem input_refused {w : Work} {msg : Option Octets} {len : ℕ} (h : (input w msg len).io.status=.err) :
    (input w msg len).ctx=w.ctx := by
  have hm : Moves w.ctx 0 (.input msg len) (input w msg len).io.status (input w msg len).ctx :=
    step_moves .shipped w 0 (.input msg len)
  rw [h] at hm
  generalize (input w msg len).ctx=c' at hm ⊢
  cases hm
  rfl

/-- When the client may start again: now, or ten seconds behind the last address it declined. -/
structure Waits (c : Ctx) (p : Past) : Prop where
  clock : Clocked c
  init : c.state=.init → c.retryMs ≤ c.nowMs ∨ ∃ u∈p.declined,c.retryMs≤u+10000
  bound : c.state=.bound → c.retryMs ≤ c.nowMs ∧ ∀ m,c.owed=some m → m=.release ∨ m=.decline
  owed : c.owed=some .decline → c.state=.bound ∧ ∃ u∈p.declined,c.nowMs≤u
  sent : c.sent≠some .decline

/-- No deadline of another exchange is left in INIT, and a decline is built before the clock moves on. -/
def Waited (s : Trace) (e : ℕ × Call) : Prop :=
  let c := s.work.ctx
  Paced s e ∧ (e.2.binds → c.owed≠some .decline ∧ (c.state=.init ∨ c.retryMs ≤ c.nowMs)) ∧
    (∀ o∈e.2.options,o.msgType=some 6 → c.state.asking → c.retryMs ≤ c.nowMs) ∧
    (e.2.builds → c.state=.init → c.owed=none ∨ c.owed=some .release) ∧
    (e.2.ticks → c.owed≠some .decline ∧ (c.state=.renewing ∨ c.state=.rebinding → c.expireMs≤e.1 → c.retryMs≤e.1))

/-- A start is put off for ten seconds behind a decline. -/
def Startable (cfg : Config) (s : Trace) (e : ℕ × Call) : Prop :=
  e.2.starts → (trace cfg s e).work.io.status=.busy → ∃ u∈s.past.declined,e.1<u+10000

theorem Waits.step {s : Trace} {e : ℕ × Call} (hm : Moves s.work.ctx (BitVec.ofNat 32 e.1) e.2 st c')
    (h : Waits s.work.ctx s.past) (hok : Waited s e) : Waits c' (s.past.next e.1 e.2 st s.work.ctx c') := by
  obtain ⟨t,call⟩ := e
  obtain ⟨w,p⟩ := s
  obtain ⟨⟨hle,hlt,ht⟩,hbn,hn,hb,htc⟩ := hok
  generalize w.ctx=c at *
  have hc := hm.clocked h.clock hle hlt ht
  have hr := (h.clock.read hle hlt ht).1
  have hi : c.state=.init → c.retryMs≤t ∨ ∃ u∈p.declined,c.retryMs≤u+10000 := fun hs =>
    (h.init hs).imp_left fun hdu => le_trans hdu hle
  cases hm with
  | kept hstart hok htc =>
    rw [p.next_kept t call hok]
    exact h
  | bind =>
    obtain ⟨hd,hdu⟩ := hbn rfl
    exact ⟨hc,fun _ => hdu.elim h.init .inl,nofun,fun ho => absurd ho hd,h.sent⟩
  | waits a hstate =>
    refine ⟨hc,fun hs => ?_,fun hs => absurd (hstate.symm.trans hs) nofun,fun ho => ?_,h.sent⟩
    · rw [hr]
      exact hi hs
    · cases hstate.symm.trans (h.owed ho).1
  | begins a ip u v hcf hstate hst => rcases hst with rfl|rfl <;> exact ⟨hc,nofun,nofun,nofun,nofun⟩
  | stops | gives => exact ⟨hc,fun _ => .inl le_rfl,nofun,nofun,nofun⟩
  | selects => exact ⟨hc,nofun,nofun,nofun,nofun⟩
  | informed => exact ⟨hc,h.init,fun hs => ⟨(h.bound hs).1,nofun⟩,nofun,nofun⟩
  | leases => exact ⟨hc,nofun,fun _ => ⟨le_rfl,nofun⟩,nofun,nofun⟩
  | refused htk hstate =>
    exact ⟨hc,fun _ => .inl (hn _ htk.options htk.type hstate),nofun,nofun,nofun⟩
  | spurns how =>
    obtain ⟨-,u,hu,hnw⟩ := h.owed how
    refine ⟨hc,fun _ => .inr ⟨u,hu,?_⟩,nofun,nofun,nofun⟩
    change Ms.add c.nowMs 10000≤u+10000
    rw [Ms.add_eq (by omega)]
    omega
  | writes m n u how hm =>
    refine ⟨hc,fun hs => ?_,fun hs => ?_,nofun,fun hs => hm.2 (some.inj hs)⟩
    · rcases hb rfl hs with ho|ho
      · cases how.symm.trans ho
      · exact absurd (some.inj (how.symm.trans ho)) hm.1
    · exact (((h.bound hs).2 m how).elim hm.1 hm.2).elim
  | releases =>
    exact ⟨hc,h.init,fun hs => ⟨(h.bound hs).1,fun m hm => .inl (some.inj hm).symm⟩,nofun,h.sent⟩
  | declines hstate =>
    exact ⟨hc,fun hs => absurd (hstate.symm.trans hs) nofun,
      fun hs => ⟨(h.bound hs).1,fun m hm => .inr (some.inj hm).symm⟩,fun _ => ⟨hstate,t,rfl,hle⟩,h.sent⟩
  | informs a hstate =>
    refine ⟨hc,fun hs => ?_,fun hs => absurd (hstate.symm.trans hs) nofun,nofun,nofun⟩
    change c.retryMs≤(c.read _).nowMs ∨ _
    rw [hr]
    exact hi hs
  | idles =>
    refine ⟨hc,fun hs => ?_,fun hs => ⟨?_,(h.bound hs).2⟩,fun ho => absurd ho (htc rfl).1,h.sent⟩
    · rw [hr]
      exact hi hs
    · rw [hr]
      exact le_trans (h.bound hs).1 hle
  | runs hrn =>
    cases (run_turn hrn).1 with
    | asks u hu => rcases hu with ⟨-,rfl⟩|⟨-,rfl|rfl⟩ <;> exact ⟨hc,nofun,nofun,nofun,nofun⟩
    | sends m hm hstate =>
      have hne : m≠some .decline := by
        rcases hm with rfl|⟨rfl,-⟩
        · exact h.sent
        · exact nofun
      refine ⟨hc,fun hs => ?_,fun hs => absurd hs hstate,fun ho => absurd ho hne,hne⟩
      change c.retryMs≤(c.read _).nowMs ∨ _
      rw [hr]
      exact hi hs
    | ends he =>
      refine ⟨hc,fun _ => .inl ?_,nofun,nofun,nofun⟩
      change c.retryMs≤(c.read _).nowMs
      rcases he with ⟨hl,hdu⟩|⟨-,hdu⟩
      · rw [hr]
        cases hstate : c.state with
        | bound => exact le_trans (h.bound hstate).1 hle
        | renewing => exact (htc rfl).2 (.inl hstate) (le_of_le_of_eq hdu hr)
        | rebinding => exact (htc rfl).2 (.inr hstate) (le_of_le_of_eq hdu hr)
        | _ => cases hl.symm.trans (congrArg State.leased hstate)
      · exact hdu
    | quits hstate =>
      refine ⟨hc,fun hs => ?_,fun hs => absurd (hstate.symm.trans hs) nofun,fun ho => absurd ho (htc rfl).1,nofun⟩
      change c.retryMs≤(c.read _).nowMs ∨ _
      rw [hr]
      exact hi hs

/-- Along every run that keeps to the conditions only a decline puts a start off. -/
theorem run_startable (cfg : Config) (es : List (ℕ × Call)) (h : Along (trace cfg) Waited {} es) :
    Along (trace cfg) (Startable cfg) {} es := by
  refine @along_moves cfg Waited (Startable cfg) Waits ⟨⟨⟨rfl,rfl⟩,by decide⟩,fun _ => .inl le_rfl,nofun,nofun,nofun⟩
    (fun s e c' st hm hs hok => hs.step hm hok) (fun s e hs hok => ?_) es h
  obtain ⟨t,call⟩ := e
  intro hstart hbusy
  have hm := step_moves cfg s.work (BitVec.ofNat 32 t) call
  change (step cfg s.work (BitVec.ofNat 32 t) call).io.status=.busy at hbusy
  rw [hbusy] at hm
  generalize (step cfg s.work (BitVec.ofNat 32 t) call).ctx=c' at hm
  obtain ⟨⟨hle,hlt,ht⟩,-⟩ := hok
  cases hm with
  | kept hkept => cases call with
    | start a => exact absurd rfl (hkept rfl a)
    | _ => cases hstart
  | idles => cases hstart
  | waits a hstate hwait =>
    rw [(hs.clock.read hle hlt ht).1] at hwait
    rcases hs.init hstate with hdue|⟨u,hu,hdue⟩
    · exact absurd (le_trans hdue hle) (not_le.mpr hwait)
    · exact ⟨u,hu,lt_of_lt_of_le hwait hdue⟩

/-- A call at a reading of the clock. -/
def stepAt (cfg : Config) (w : Work) (e : BitVec 32 × Call) : Work := step cfg w e.1 e.2

/-- A lease names its address and its server. -/
def Held (w : Work) : Prop := w.ctx.state.leased → w.ctx.offeredIp≠0 ∧ w.ctx.serverId≠0

/-- What a message that is taken for a lease names. -/
def Names (w : Work) (e : BitVec 32 × Call) : Prop :=
  ∀ m len o,e.2=.input (some m) len → Taken w.ctx m len o 5 → w.ctx.state.asking →
    (m.drop 16).rd32≠0 ∧ o.serverId.getD w.ctx.serverId≠0

/-- Parameters alone are asked for in INIT. -/
def Informs (c : Ctx) : Prop := c.sent=some .inform ∨ c.owed=some .inform → c.state=.init

theorem Informs.step (hm : Moves c n call st c') (h : Informs c) : Informs c' := by
  cases hm with
  | kept | waits | idles => exact h
  | bind | stops | refused | gives | spurns => exact fun _ => rfl
  | informs a hst => exact fun _ => hst
  | begins | selects | informed | leases => rintro (hi | hi) <;> cases hi
  | writes m k u ho => exact fun hi => hi.elim (fun hs => h (.inr (ho.trans hs))) nofun
  | releases | declines => exact fun hi => hi.elim (fun hs => h (.inl hs)) nofun
  | runs hr =>
    cases (run_turn hr).1 with
    | asks => rintro (hi | hi) <;> cases hi
    | sends m hm =>
      intro hi
      have hin : m=some .inform := hi.elim id id
      exact h (.inl ((hm.resolve_right fun hd => nomatch hin.symm.trans hd.1).symm.trans hin))
    | ends => exact fun _ => rfl
    | quits hst => exact fun _ => hst

theorem input_leases {m : Octets} {len : ℕ} {o : Opts} (h : Taken w.ctx m len o 5)
    (hsn : w.ctx.sent≠some .inform) (hst : w.ctx.state.asking) : (input w (some m) len).ctx=(w.ctx.adopt o).lease o m := by
  obtain ⟨s,hs,ha⟩ := h.answers
  have ht : ∀ v : Work,v.ctx=w.ctx → (take v s (some m) len).1.ctx=(w.ctx.adopt o).lease o m := by
    intro v hv
    dsimp only [take]
    rw [hv,ha,h.options,if_neg nofun]
    dsimp only
    rw [h.type]
    dsimp only [ack]
    rw [if_neg nofun,if_pos rfl,if_neg hsn,if_neg (by rw [hst]; nofun)]
    rfl
  unfold input
  dsimp only
  rw [hs]
  exact ht _ rfl

theorem step_held_iff {e : BitVec 32 × Call} (hi : Informs w.ctx) (h : Held w) : Held (step cfg w e.1 e.2) ↔ Names w e := by
  by_cases hg : ∃ m len o,e.2=.input (some m) len ∧ Taken w.ctx m len o 5 ∧ w.ctx.state.asking
  · obtain ⟨m,len,o,hc,ht,ha⟩ := hg
    have hsn : w.ctx.sent≠some .inform := fun hs =>
      absurd (ha.symm.trans (congrArg State.asking (hi (.inl hs)))) nofun
    have hct : (step cfg w e.1 e.2).ctx=(w.ctx.adopt o).lease o m := by
      rw [hc,step]
      exact input_leases ht hsn ha
    unfold Held
    rw [hct]
    constructor
    · intro hh m' len' o' hcall' htaken' _
      cases hc.symm.trans hcall'
      cases ht.options.symm.trans htaken'.options
      exact hh rfl
    · exact fun hn _ => hn m len o hc ht ha
  refine iff_of_true ?_ fun m len o hc ht ha => absurd ⟨m,len,o,hc,ht,ha⟩ hg
  have hm := step_moves cfg w e.1 e.2
  unfold Held at h ⊢
  generalize (step cfg w e.1 e.2).ctx=c' at hm ⊢
  generalize (step cfg w e.1 e.2).io.status=st at hm
  obtain ⟨n,call⟩ := e
  cases hm with
  | leases ht hsn ha => exact absurd ⟨_,_,_,rfl,ht,ha⟩ hg
  | bind | stops | refused | gives | spurns | selects => exact nofun
  | begins a ip u v hcf hstate hst => rcases hst with rfl|rfl <;> exact nofun
  | informed ht hsn => exact fun hl => absurd (hl.symm.trans (congrArg State.leased (hi (.inl hsn)))) nofun
  | informs a hstate => exact fun hl => absurd (hl.symm.trans (congrArg State.leased hstate)) nofun
  | kept | waits | writes | releases | declines | idles => exact h
  | runs hr =>
    cases (run_turn hr).1 with
    | asks u hu =>
      rcases hu with ⟨-,rfl⟩|⟨hs,-⟩
      · exact nofun
      · exact fun _ => h hs
    | ends => exact nofun
    | sends | quits => exact h

/-- In every run a lease names its address and its server, exactly when every message taken for one does. -/
theorem run_held_iff (cfg : Config) (es : List (BitVec 32 × Call)) :
    (∀ n,Held (StepRun.run (stepAt cfg) {} (es.take n))) ↔ Along (stepAt cfg) Names {} es := by
  have hkeep : ∀ (w : Work) (e : BitVec 32 × Call),Informs w.ctx → Informs (step cfg w e.1 e.2).ctx := fun w e hi =>
    hi.step (step_moves cfg w e.1 e.2)
  refine (every_iff_along_of hkeep (fun w e hi _ h => step_held_iff hi h) (by rintro (h | h) <;> cases h)
    (along_true _ _)).trans ?_
  exact and_iff_right nofun

section Examples

instance (s : Trace) (e : ℕ × Call) : Decidable (Paced s e) := inferInstanceAs (Decidable (_ ∧ _ ∧ _))

instance (s : Trace) (e : ℕ × Call) : Decidable (Prompt s e) :=
  inferInstanceAs (Decidable (Paced s e ∧ (_ → _) ∧ (∀ o∈_,_ → _) ∧ (_ → _ → (∃ u∈_,_) → _)))

instance (s : Trace) (e : ℕ × Call) : Decidable (Expires cfg s e) :=
  inferInstanceAs (Decidable ((_ → _ → _) ∧ (_ → (_ → ∃ u∈_,_) → _)))

instance (s : Trace) (e : ℕ × Call) : Decidable (Answered s e) := inferInstanceAs (Decidable (∀ o∈_,_ → _ → _))

instance (s : Trace) (e : ℕ × Call) : Decidable (Requested cfg s e) :=
  inferInstanceAs (Decidable (_ → _ → (∃ o∈_,_) ∧ _))

instance (s : Trace) (e : ℕ × Call) : Decidable (Waited s e) :=
  inferInstanceAs (Decidable (Paced s e ∧ (_ → _ ∧ _) ∧ (∀ o∈_,_ → _ → _) ∧ (_ → _ → _ ∨ _) ∧ (_ → _ ∧ (_ → _ → _))))

instance (s : Trace) (e : ℕ × Call) : Decidable (Startable cfg s e) :=
  inferInstanceAs (Decidable (_ → _ → ∃ u∈_,_))

/-- A server's message to the client of the runs below. -/
def answer (type : BitVec 8) (yiaddr : BitVec 32) (opts : List (BitVec 8)) : Octets :=
  let msg : Octets := .ofList [2,1,6,0,0,0,0,7]
  let msg := ((msg.wr32 16 yiaddr).copy 28 (.ofList [1,2,3,4,5,6]) 6).wr32 236 0x63825363
  msg.copy 240 (.ofList ([53,1,type]++opts++[255])) (4+opts.length)

def reply (type : BitVec 8) (yiaddr : BitVec 32) (opts : List (BitVec 8)) : Call := .input (some (answer type yiaddr opts)) 300

/-- The server, and a lease of a hundred seconds. -/
def grant : List (BitVec 8) := [54,4,10,0,0,1,51,4,0,0,0,100]

def build300 : Call := .build (some .zero) 300 0

/-- An offer is taken. -/
def offered : List (ℕ × Call) :=
  [(0,.bind (some ⟨some (.ofList [1,2,3,4,5,6]),0,0,1,6,false⟩)),(0,.start ⟨7,0,0⟩),(1000,.tick),(1000,build300),
    (1000,reply 2 0x0A000002 grant)]

/-- It is asked for and granted. -/
def granted : List (ℕ × Call) := offered++[(1000,build300),(1000,reply 5 0x0A000002 grant)]

theorem run_expires_granted : Along (trace .shipped) (Expires .shipped) {} (granted++[(101000,.tick)]) :=
  run_expires .shipped _ (by decide +kernel)

/-- A renewal that was not built keeps the lease past its end. -/
theorem unbuilt_outlives : Along (trace .shipped) Paced {} (granted++[(51000,.tick),(101000,.tick)]) ∧
    ¬Along (trace .shipped) (Expires .shipped) {} (granted++[(51000,.tick),(101000,.tick)]) := by
  decide +kernel

theorem run_requested_granted : Along (trace .shipped) (Requested .shipped) {} granted :=
  run_requested .shipped _ (by decide +kernel)

/-- The request for an offer is granted before it is built. -/
theorem unasked_granted : ¬Along (trace .shipped) (Requested .shipped) {} (offered++[(1000,reply 5 0x0A000002 grant)]) := by
  decide +kernel

theorem run_startable_declined :
    Along (trace .shipped) (Startable .shipped) {} (granted++[(1000,.decline),(1000,build300),(2000,.start ⟨8,0,0⟩)]) :=
  run_startable .shipped _ (by decide +kernel)

/-- A refused request puts the next start off. -/
theorem refused_waits : Along (trace .shipped) Paced {} (offered++[(1000,build300),(1000,reply 6 0 []),(1000,.start ⟨8,0,0⟩)]) ∧
      ¬Along (trace .shipped) (Startable .shipped) {}
        (offered++[(1000,build300),(1000,reply 6 0 []),(1000,.start ⟨8,0,0⟩)]) := by
  decide +kernel

/-- An offer that comes once one is asked for is read to its type, and only then refused. -/
theorem input_refused_late :
    let w := (StepRun.run (trace .shipped) {} (offered++[(1000,build300)])).work
    let u := input w (some (answer 2 0x0A000002 grant)) 300
    u.io.status=.err ∧ u.io.msgType=2 ∧ u.ctx=w.ctx :=
  ⟨by decide +kernel,by decide +kernel,input_refused (by decide +kernel)⟩

instance (w : Work) : Decidable (Held w) := inferInstanceAs (Decidable (_ → _ ∧ _))

/-- An address of zero is leased. -/
theorem zero_leased : ¬Held (StepRun.run (stepAt .shipped) {}
    ((offered++[(1000,build300),(1000,reply 5 0 grant)]).map (Prod.map (BitVec.ofNat 32) id))) := by
  decide +kernel

end Examples

end Runs

section Orders

open StepRun Octets

/-- The message a call makes the client owe. -/
def Call.gives : Call → Option MsgType
  | .release => some .release
  | .decline => some .decline
  | _ => none

/-- What may come before the message is built: a message, the clock, or a build that does not succeed. -/
def Between (cfg : Config) (w : Work) (e : BitVec 32 × Call) : Prop :=
  match e.2 with
  | .input _ _ | .tick => True
  | .build _ _ _ => (stepAt cfg w e).io.status≠.ok
  | _ => False

/-- Where a request may be outstanding no DHCPACK and no DHCPNAK comes in. -/
def Unanswered (w : Work) (e : BitVec 32 × Call) : Prop :=
  w.ctx.state=.bound ∨ ∀ o∈e.2.options,o.msgType≠some 5 ∧ o.msgType≠some 6

/-- The options of a DHCPRELEASE or a DHCPDECLINE. -/
def given (c : Ctx) (m : MsgType) : List (BitVec 8) :=
  [53,1,m.code]++(if m=.decline then 50::4::octets c.offeredIp else [])++54::4::octets c.serverId++[255]

/-- The message names the address and the server, and the client is in INIT without an address. -/
structure Told (c : Ctx) (m : MsgType) (u : Work) : Prop where
  type : u.io.msgType=m.code
  options : (u.io.out.drop 240).span (given c m).length=given c m
  ciaddr : m=.release → (u.io.out.drop 12).rd32=c.offeredIp
  ended : u.ctx.state=.init ∧ u.ctx.offeredIp=0

/-- What is owed, of the lease that `c` holds. -/
structure Owing (c : Ctx) (m : MsgType) (d : Ctx) : Prop where
  owed : d.owed=some m
  names : d.offeredIp=c.offeredIp ∧ d.serverId=c.serverId
  leased : d.state.leased
  sent : d.sent≠some .inform

section Owed

variable {cfg : Config} {w : Work} {c d : Ctx} {m : MsgType}

/-- What is owed stays owed. -/
theorem Owing.stays {e : BitVec 32 × Call} (h : Owing c m w.ctx) (hin : Between cfg w e) (han : Unanswered w e) :
    Owing c m (stepAt cfg w e).ctx := by
  have hm := step_moves cfg w e.1 e.2
  have hst : ∀ s : State,w.ctx.state=s → s.leased := fun s hs => hs ▸ h.leased
  have ha : ∀ x n o,e.2=.input (some x) n → parse x n=some o → w.ctx.state.asking →
      o.msgType≠some 5 ∧ o.msgType≠some 6 := by
    intro x n o hc ho has
    rcases han with hb|hno
    · rw [hb] at has
      cases has
    · exact hno o (by rw [hc]; exact ho)
  obtain ⟨n,call⟩ := e
  unfold stepAt
  unfold Between stepAt at hin
  generalize (step cfg w n call).ctx=d at hm ⊢
  generalize (step cfg w n call).io.status=st at hm hin
  cases hm with
  | kept => exact h
  | idles => exact ⟨h.owed,h.names,h.leased,h.sent⟩
  | runs hr => exact absurd (h.owed.symm.trans (run_turn hr).2) nofun
  | gives | spurns | writes => exact absurd rfl hin
  | selects _ hs => cases hst _ hs
  | informed _ hsn => exact absurd hsn h.sent
  | leases ht _ has => exact absurd ht.type (ha _ _ _ rfl ht.options has).1
  | refused ht has => exact absurd ht.type (ha _ _ _ rfl ht.options has).2
  | bind | waits | begins | stops | releases | declines | informs => exact hin.elim

theorem message_options {s : Settings} {out : Octets} :
    ((message c s m out).drop 240).span (options c s m).length=options c s m := by
  refine (span_congr fun i hi => ?_).trans (span_ofList (options c s m))
  show (message c s m out) (240+i)=_
  unfold message
  rw [copy_inside (by omega) (by omega),Nat.add_sub_cancel_left]

theorem message_ciaddr {s : Settings} {out : Octets} : ((message c s .release out).drop 12).rd32=c.offeredIp := by
  refine (rd32_congr fun i hlow hhigh => ?_).trans (@rd32_wr32 ?p 12 c.offeredIp)
  unfold message
  rw [copy_outside (.inl (by omega)),wr32_other (.inl (by omega)),copy_outside (.inl (by omega)),if_pos (.inl rfl)]

theorem build_told {out : Option Octets} {cap : ℕ} {rand : BitVec 32} (h : Owing c m w.ctx) (hm : m=.release ∨ m=.decline)
    (hok : (build w out cap rand).io.status=.ok) : Told c m (build w out cap rand) := by
  have hw : ∃ v s o,v.ctx=w.ctx ∧ build w out cap rand=(write v s m o rand).report .ok := by
    revert hok
    unfold build
    dsimp only
    split
    · rw [h.owed]
      dsimp only
      split_ifs
      · exact nofun
      · exact nofun
      · exact fun _ => ⟨_,_,_,rfl,rfl⟩
    · exact nofun
  obtain ⟨v,s,o,hv,hb⟩ := hw
  have hg : options w.ctx s m=given c m := by
    unfold given
    rw [←h.names.1,←h.names.2]
    rcases hm with rfl|rfl <;> rfl
  rw [hb]
  refine ⟨rfl,?_,?_,?_⟩
  · rw [←hg]
    show ((message v.ctx s m o).drop 240).span _=_
    rw [hv]
    exact message_options
  · rintro rfl
    show ((message v.ctx s .release o).drop 12).rd32=_
    rw [hv,←h.names.1]
    exact message_ciaddr
  · rcases hm with rfl|rfl <;> exact ⟨rfl,rfl⟩

end Owed

/-- In every run an accepted release or decline is what the next build writes, unless an answer comes in before. -/
theorem run_told (cfg : Config) (es bs : List (BitVec 32 × Call)) (e : BitVec 32 × Call) (m : MsgType)
    (hm : e.2.gives=some m) (out : Option Octets) (cap : ℕ) (rand : BitVec 32) :
    let w := StepRun.run (stepAt cfg) {} es
    let v := stepAt cfg w e
    let u := build (StepRun.run (stepAt cfg) v bs) out cap rand
    v.io.status=.ok → Along (stepAt cfg) (fun w e => Between cfg w e ∧ Unanswered w e) v bs → u.io.status=.ok →
      Told w.ctx m u := by
  intro w v u hok hbetween hbuilt
  have hkeep : ∀ (x : Work) (e : BitVec 32 × Call),Informs x.ctx → Informs (stepAt cfg x e).ctx := fun x e hi =>
    hi.step (step_moves cfg x e.1 e.2)
  have hinforms : Informs w.ctx := run_always hkeep (by rintro (h | h) <;> cases h)
  have howes : (m=.release ∨ m=.decline) ∧ Owing w.ctx m v.ctx := by
    have hmoves := step_moves cfg w e.1 e.2
    change Moves _ _ _ v.io.status v.ctx at hmoves
    obtain ⟨n,call⟩ := e
    rw [hok] at hmoves
    have hsent : w.ctx.state.leased=true → w.ctx.sent≠some .inform := fun hl hs =>
      absurd (hl.symm.trans (congrArg State.leased (hinforms (.inl hs)))) nofun
    generalize v.ctx=d at hmoves ⊢
    cases hmoves with
    | kept _ h => exact absurd rfl h
    | releases hl =>
      cases hm
      exact ⟨.inl rfl,rfl,⟨rfl,rfl⟩,hl,hsent hl⟩
    | declines hb =>
      cases hm
      have hl : w.ctx.state.leased=true := by rw [hb]; rfl
      exact ⟨.inr rfl,rfl,⟨rfl,rfl⟩,hl,hsent hl⟩
    | _ => cases hm
  have hstays : ∀ (x : Work) (e : BitVec 32 × Call),Owing w.ctx m x.ctx → Between cfg x e ∧ Unanswered x e →
      Owing w.ctx m (stepAt cfg x e).ctx := fun x e h hin => h.stays hin.1 hin.2
  exact build_told (run_invariant hstays howes.2 hbetween) howes.1 hbuilt

/-- The calls of a run at readings of the clock. -/
def timed32 (es : List (ℕ × Call)) : List (BitVec 32 × Call) := es.map (Prod.map (BitVec.ofNat 32) id)

/-- An address is released in BOUND and the clock moves on. -/
theorem run_told_granted : let w := StepRun.run (stepAt .shipped) {} (timed32 granted)
    Told w.ctx .release (build (StepRun.run (stepAt .shipped) (stepAt .shipped w (1000,.release)) [(2000,.tick)])
      (some .zero) 300 0) :=
  run_told .shipped (timed32 granted) [(2000,.tick)] (1000,.release) .release rfl _ _ _ (by decide +kernel)
    ⟨⟨trivial,.inl (by decide +kernel)⟩,trivial⟩ (by decide +kernel)

/-- A release in RENEWING is lost when the renewal is granted: the next message built is a DHCPREQUEST. -/
theorem renewed_untold : let w := StepRun.run (stepAt .shipped) {} (timed32 (granted++[(51000,.tick),(51000,build300)]))
    let v := stepAt .shipped w (51000,.release)
    let u := StepRun.run (stepAt .shipped) v (timed32 [(51000,reply 5 0x0A000002 grant),(101000,.tick),(101000,build300)])
    v.io.status=.ok ∧ u.io.status=.ok ∧ u.io.msgType=3 ∧ ¬Told w.ctx .release u := by
  intro w v u
  have htype : u.io.msgType=3 := by decide +kernel
  refine ⟨by decide +kernel,by decide +kernel,htype,fun h => ?_⟩
  cases htype.symm.trans h.type

end Orders

end IdemIp.Dhcp4
