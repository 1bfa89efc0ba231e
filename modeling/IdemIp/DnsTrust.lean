import IdemIp.DnsRuns

/-!
# What the resolver believes, and how long

Whether a message that is taken came from the server the question was sent to, is
about the name that was asked, and gives that name's address. An answer is kept with
the count it ends at, and `tick` drops the valid ones that ended.
-/

namespace IdemIp.Dns

section Truth

open DomainName StepRun Function

/-- The question of a message is the one that was asked, label by label, with its type and class. -/
def Asked (w : Work) (m : Message) (i : ℕ) : Prop :=
  (∃ ls k T,Unpacks m.octets m.len 12 ls k ∧ Reads (w.name i) 0 T ∧ Same fold ls (labels dot T)) ∧
    ∃ e,EndsAt m.octets m.len 12 e ∧ e+4 ≤ m.len ∧ (m.octets.drop e).rd16=(w.query i).type ∧
      (m.octets.drop (e+2)).rd16=(w.query i).qclass

/-- No label of the question's name in a message has a dot in it. -/
def Plain (m : Message) : Prop := ∀ ls k,Unpacks m.octets m.len 12 ls k → ∀ l∈ls,dot∉l

/-- A message that echoes a question asks what was asked exactly if its name is plain. -/
theorem Echoed.asked_iff {w : Work} {m : Message} {i : ℕ} (h : Echoed w m i) (hn : ∃ T,Dotted (w.name i) 0 T) :
    Asked w m i ↔ Plain m := by
  obtain ⟨T,hT⟩ := hn
  constructor
  · rintro ⟨⟨ls,k,T',hls,-,hs⟩,-⟩ ms j hms
    cases (hms.unique hls).1
    exact hs.free fold_eq_dot
  · intro hp
    obtain ⟨T',hT',ls,k,hls,-,-,hsp⟩ := h.name
    cases hT.reads.unique hT'
    have hs := hsp.same fold_eq_dot hls.label_ne (hp ls k hls) hT.ne hT.label_ne
    exact ⟨⟨ls,k,T,hls,hT',hs⟩,h.fields⟩

/-- In every run a message is matched only to a question that asked what it echoes, exactly if an answering name is
plain. -/
theorem run_matched_iff (cfg : Config) (calls : List Call) (a : InputArgs) (m : Message) (src : Octets) :
    (∀ i,matchQuery cfg (run (step cfg) clear calls) a m src=.ok (some i) → Asked (run (step cfg) clear calls) m i) ↔
      ∀ i < cfg.dnsQueries,Answers cfg (run (step cfg) clear calls) a m src i →
        (∀ k < i,¬Answers cfg (run (step cfg) clear calls) a m src k) → Plain m := by
  have hnamed := run_named cfg calls
  generalize run (step cfg) clear calls=w at hnamed
  have hdotted : ∀ i < cfg.dnsQueries,Answers cfg w a m src i → ∃ T,Dotted (w.name i) 0 T := fun i hi hans =>
    hnamed i hi (by rw [state_of_addressed hans.addressed]; decide)
  by_cases hlen : 1 < m.len
  · obtain ⟨r,hr,hfirst⟩ := matchQuery_spec hnamed a src hlen
    constructor
    · intro h i hi hans hbefore
      have hmatch := (hfirst i).2 ⟨hi,hans,hbefore⟩
      exact (hans.echoed.asked_iff (hdotted i hi hans)).1 (h i (hmatch ▸ hr))
    · intro h i hmatch
      obtain ⟨hi,hans,hbefore⟩ := (hfirst i).1 (by rw [hr] at hmatch; injection hmatch)
      exact (hans.echoed.asked_iff (hdotted i hi hans)).2 (h i hi hans hbefore)
  -- a message without an identity is matched to nothing, and has no name
  refine iff_of_true (fun i hmatch => ?_) fun i _ hans => ?_
  · have hread : m.rd16 0=.error .outside := by
      unfold Message.rd16 Message.read
      by_cases hzero : 0 < m.len
      · rw [if_pos hzero,if_neg (by omega)]
        rfl
      · rw [if_neg hzero]
        rfl
    unfold matchQuery at hmatch
    rw [hread] at hmatch
    cases hmatch
  · obtain ⟨-,-,ls,k,hls,-⟩ := hans.echoed.name
    exact absurd hls.lt (by omega)

/-- One server is asked for the address of `a.b`. -/
def askingCalls : List Call :=
  [.bind (some ⟨0,3⟩),.setServer ⟨0,some (.ofList [1,1,1,1]),0,0,false⟩,.query ⟨some (.ofList [0x61,0x2E,0x62]),1,7,5000⟩,
    .build ⟨some .zero,512,none,0⟩ 0]

/-- The resolver that waits for the answer. -/
def asking : Work := run (step .shipped) clear askingCalls

/-- A response about the name whose one label is `a.b`, with an address for it. -/
def oneLabel : Message :=
  ⟨.ofList [0,7,0x80,0,0,1,0,1,0,0,0,0,3,0x61,0x2E,0x62,0,0,1,0,1,0xC0,12,0,1,0,1,0,0,0,60,0,4,9,9,9,9],37⟩

/-- It arrives from the server. -/
def oneLabelArgs : InputArgs := ⟨some oneLabel.octets,37,some (.ofList [1,1,1,1]),none,53,5000,false⟩

theorem oneLabel_unpacks : Unpacks oneLabel.octets oneLabel.len 12 [[0x61,0x2E,0x62]] 0 :=
  .label (by decide) (by decide) (by decide) (.root (by decide) (by decide))

theorem asking_reads : Reads (asking.name 0) 0 [0x61,0x2E,0x62] := by
  simp only [Reads]
  decide +kernel

theorem oneLabel_other {ls : List (List (BitVec 8))} {k : ℕ} {T : List (BitVec 8)}
    (hls : Unpacks oneLabel.octets oneLabel.len 12 ls k) (hT : Reads (asking.name 0) 0 T) : ¬Same fold ls (labels dot T) := by
  cases (hls.unique oneLabel_unpacks).1
  cases hT.unique asking_reads
  unfold Same
  decide

/-- The message is matched to the question for `a.b`. -/
theorem oneLabel_matched :
    matchQuery .shipped asking oneLabelArgs oneLabel (.ofList [1,1,1,1])=.ok (some 0) ∧ ¬Asked asking oneLabel 0 := by
  refine ⟨by decide +kernel,?_⟩
  rintro ⟨⟨ls,k,T,hls,hT,hsame⟩,-⟩
  exact oneLabel_other hls hT hsame

/-- The address a response answers with is the data of a record the asked name leads to in the answer section. -/
def Truthful (cfg : Config) (w : Work) (a : InputArgs) (nowMs : BitVec 32) (i : ℕ) : Prop :=
  ∃ octets T e ancount,a.msg=some octets ∧ Reads (w.name i) 0 T ∧ EndsAt octets a.len 12 e ∧
    Message.rd16 ⟨octets,a.len⟩ 6=.ok ancount ∧
    GivenBy ⟨octets,a.len⟩ (labels dot T) (e+4) ancount.toNat (w.query i).type (if (w.query i).type=28 then 16 else 4)
      (input cfg w a nowMs).io.addr

/-- A message is plain if it answers a question first of all and gives an address. -/
def PlainAnswer (cfg : Config) (w : Work) (a : InputArgs) : Prop :=
  ∀ octets src,a.msg=some octets → a.src=some src → ∀ i < cfg.dnsQueries,Answers cfg w a ⟨octets,a.len⟩ src i →
    (∀ k < i,¬Answers cfg w a ⟨octets,a.len⟩ src k) → ∀ addr,Gives cfg ⟨octets,a.len⟩ (w.query i).type addr →
    Plain ⟨octets,a.len⟩

theorem input_truthful {cfg : Config} {w : Work} (hn : Named cfg w) {a : InputArgs} {now : BitVec 32}
    (hp : PlainAnswer cfg w a) {i : ℕ} (hb : (w.query i).state≠.done)
    (hdn : ((input cfg w a now).query i).state=.done) : Truthful cfg w a now i := by
  rcases input_spec hn with h|⟨octets,src,j,hm,hsr,hj,ha,hf,ht⟩
  · exact absurd ((congrArg Query.state (congrFun h.query i)).symm.trans hdn) hb
  by_cases hij : i=j
  · subst hij
    have hnm := hn i hj (by rw [state_of_addressed ha.addressed]; decide)
    obtain ⟨⟨ls,k,T,hls,hT,hsm⟩,-⟩ := (ha.echoed.asked_iff hnm).2 (hp octets src hm hsr i hj ha hf _ (ht.address hdn))
    obtain ⟨-,e,ancount,ttl,he,hc,hrd⟩ := ht.address hdn
    -- the walk starts from the name in the message, which is the name asked
    have hs : ∀ off,Alike ⟨octets,a.len⟩ off 12 → Leads ⟨octets,a.len⟩ (labels dot T) [] off := by
      rintro off ⟨ls',ms,k',j,ho,hms,hbt⟩
      cases (hms.unique hls).1
      exact .here ho (hbt.trans hsm)
    obtain ⟨r,hr,hg⟩ := answersRead_spec cfg ⟨octets,a.len⟩ (e+4) ancount (w.query i).type _ hs
    rw [hrd] at hr
    cases hr
    obtain ⟨d,hd,hat,-⟩ := nameEnd_spec
    rw [he] at hd
    cases hd
    exact ⟨octets,T,e,ancount,hm,hT,hat e rfl,hc,hg _ rfl⟩
  · exact absurd ((congrArg Query.state (ht.others i hij)).symm.trans hdn) hb

/-- Answers are read within the message, and in every run an address taken is one of the asked name, if a message that
reaches its answers is plain. -/
theorem run_truthful (cfg : Config) (calls : List Call) :
    (∀ m start ancount type,∃ r,answersRead cfg m start ancount type=.ok r) ∧
      ∀ a nowMs i,PlainAnswer cfg (run (step cfg) clear calls) a → ((run (step cfg) clear calls).query i).state≠.done →
        ((input cfg (run (step cfg) clear calls) a nowMs).query i).state=.done →
        Truthful cfg (run (step cfg) clear calls) a nowMs i :=
  ⟨answersRead_ok cfg,fun _ _ _ hplain hbefore hdone => input_truthful (run_named cfg calls) hplain hbefore hdone⟩

/-- A response about the name with the two labels `a` and `b`, with an address for it. -/
def twoLabels : Message :=
  ⟨.ofList [0,7,0x80,0,0,1,0,1,0,0,0,0,1,0x61,1,0x62,0,0,1,0,1,0xC0,12,0,1,0,1,0,0,0,60,0,4,9,9,9,9],37⟩

/-- It arrives from the server. -/
def twoLabelsArgs : InputArgs := ⟨some twoLabels.octets,37,some (.ofList [1,1,1,1]),none,53,5000,false⟩

theorem twoLabels_plain : Plain twoLabels := by
  have hu : Unpacks twoLabels.octets twoLabels.len 12 [[0x61],[0x62]] 0 :=
    .label (by decide) (by decide) (by decide) (.label (by decide) (by decide) (by decide) (.root (by decide) (by decide)))
  intro ls k hls
  cases (hls.unique hu).1
  decide

theorem run_truthful_twoLabels :
    ((input .shipped asking twoLabelsArgs 0).query 0).state=.done ∧ Truthful .shipped asking twoLabelsArgs 0 0 := by
  have hdone : ((input .shipped asking twoLabelsArgs 0).query 0).state=.done := by decide +kernel
  refine ⟨hdone,(run_truthful .shipped askingCalls).2 twoLabelsArgs 0 0 ?_ (by decide +kernel) hdone⟩
  rintro octets src hmsg hsrc i hi hans hfirst addr hgives
  cases hmsg
  exact twoLabels_plain

/-- The address in a response about another name is taken for `a.b`. -/
theorem oneLabel_untruthful :
    ((input .shipped asking oneLabelArgs 0).query 0).state=.done ∧ ¬Truthful .shipped asking oneLabelArgs 0 0 := by
  refine ⟨by decide +kernel,?_⟩
  rintro ⟨octets,T,e,ancount,hmsg,hT,hat,hcount,rs,r,d,hsection,hlt,-,-,-,-,hleads⟩
  cases hmsg
  have hend : EndsAt oneLabel.octets oneLabel.len 12 17 :=
    .label (by decide) (by decide) (by decide) (.root (by decide) (by decide))
  cases hat.unique hend
  have hone : Message.rd16 oneLabel 6=.ok 1 := by decide
  cases hone.symm.trans hcount
  have hnil : rs=[] := List.eq_nil_of_length_eq_zero (Nat.lt_one_iff.1 hlt)
  subst hnil
  have howner : r.owner=21 := hsection.owner_eq
  rw [howner] at hleads
  have hnone : ∀ {pre post : List Record} {c : Record},[]≠pre++c::post := by simp
  generalize hrs : []=rs at hleads
  cases hleads with
  | cname => exact hnone hrs
  | here hname hsame =>
    have hpointer : Unpacks oneLabel.octets oneLabel.len 21 [[0x61,0x2E,0x62]] 1 :=
      .pointer (by decide) (by decide) (by decide) oneLabel_unpacks
    cases (hname.unique hpointer).1
    exact oneLabel_other oneLabel_unpacks hT hsame

/-- What `build` last reported for a question. -/
structure Sent where
  dst : Octets
  dstPort : BitVec 16
  ipv6 : Bool
  (xid srcPort : BitVec 16)

/-- A call, with what `build` reports kept for each question. -/
def logged (cfg : Config) (s : Work × (ℕ → Option Sent)) (c : Call) : Work × (ℕ → Option Sent) :=
  let w := step cfg s.1 c
  match c with
  | .build a _ =>
    if w.io.status=.ok then
      (w,update s.2 a.query (some ⟨w.io.dst,w.io.dstPort,w.io.ipv6,w.io.xid,w.io.srcPort⟩))
    else (w,s.2)
  | _ => (w,s.2)

/-- A message comes from where a question was sent, to where it left from, and carries its identity. -/
def Credible (r : Option Sent) (a : InputArgs) : Prop :=
  ∃ r' octets src,r=some r' ∧ a.msg=some octets ∧ a.src=some src ∧ a.ipv6=r'.ipv6 ∧
    r'.dst.bytesEq src (addrLen a.ipv6)=true ∧ a.srcPort=r'.dstPort ∧ a.dstPort=r'.srcPort ∧ (octets.drop 0).rd16=r'.xid

/-- No other server is put in the place of one a question waits for. -/
def Steady (cfg : Config) (s : Work × (ℕ → Option Sent)) : Call → Prop
  | .setServer a => ∀ i < cfg.dnsQueries,(s.1.query i).state=.sent → (s.1.query i).server=a.index →
      ((setServer cfg s.1 a).server a.index).addr=(s.1.server a.index).addr ∧
      ((setServer cfg s.1 a).server a.index).port=(s.1.server a.index).port ∧
      ((setServer cfg s.1 a).server a.index).ipv6=(s.1.server a.index).ipv6
  | _ => True

/-- A question that was sent is as `build` reported it, and so is the server it waits for. -/
structure Recorded (w : Work) (r : Option Sent) (i : ℕ) : Prop where
  report : ∃ r',r=some r' ∧ r'.xid=(w.query i).id ∧ r'.srcPort=(w.query i).srcPort ∧
    r'.dst=(w.server (w.query i).server).addr ∧ r'.dstPort=(w.server (w.query i).server).port ∧
    r'.ipv6=(w.server (w.query i).server).ipv6

section Credibility

variable {cfg : Config} {w : Work}

theorem setServer_server {w : Work} {a : ServerArgs} {k : ℕ} (hk : k≠a.index) : (setServer cfg w a).server k=w.server k := by
  unfold setServer
  split
  · split
    · rfl
    · exact update_of_ne hk _ _
  · rfl

/-- What only the calls that bind, configure and receive change. -/
def Work.rest (w : Work) : Option Settings × (ℕ → Entry) × (ℕ → Server) := (w.cfg,w.entry,w.server)

theorem query_rest (w : Work) (a : QueryArgs) : (query cfg w a).rest=w.rest := by
  rcases query_cases with ⟨io,h⟩|⟨name,wire,n,i,io,-,-,-,h⟩ <;> rw [h] <;> rfl

theorem lookup_rest (w : Work) (a : LookupArgs) (now : BitVec 32) : (lookup cfg w a now).rest=w.rest := by
  rcases lookup_cases with ⟨io,h⟩|⟨i,io,h⟩ <;> rw [h] <;> rfl

theorem build_rest (w : Work) (a : BuildArgs) (now : BitVec 32) : (build cfg w a now).rest=w.rest := by
  rcases build_cases with ⟨io,h,-⟩|⟨si,q,-,-,-,-,⟨io,h,-⟩|⟨io,h,-⟩⟩ <;> rw [h] <;> rfl

/-- No call but `set_server` changes a server. -/
theorem step_server (hn : Named cfg w) {c : Call} (hc : ∀ a,c≠.setServer a) : (step cfg w c).server=w.server := by
  cases c with
  | bind settings =>
    dsimp only [step,bind]
    split
    · rfl
    split <;> rfl
  | setServer a => exact absurd rfl (hc a)
  | query a => exact congrArg (fun r => r.2.2) (query_rest w a)
  | lookup a nowMs => exact congrArg (fun r => r.2.2) (lookup_rest w a nowMs)
  | build a nowMs => exact congrArg (fun r => r.2.2) (build_rest w a nowMs)
  | input a nowMs =>
    rcases input_spec hn with h|⟨_,_,_,_,_,_,_,_,h⟩
    · exact h.server
    · exact h.servers
  | tick nowMs =>
    dsimp only [step,tick]
    split <;> rfl
  | cancel i =>
    dsimp only [step,cancel]
    split
    · rfl
    split <;> rfl
  | flush =>
    dsimp only [step,flush]
    split <;> rfl

/-- A question that goes on waiting for a server that has not changed is still as it was recorded. -/
theorem Recorded.continues {w' : Work} {r : Option Sent} {i : ℕ} (h : Recorded w r i) (hsm : Continues (w.query i) (w'.query i))
    (hs : (w'.server (w.query i).server).addr=(w.server (w.query i).server).addr ∧
      (w'.server (w.query i).server).port=(w.server (w.query i).server).port ∧
      (w'.server (w.query i).server).ipv6=(w.server (w.query i).server).ipv6) : Recorded w' r i := by
  obtain ⟨r',hr,hid,hp,hd,hdstPort,hipv6⟩ := h.report
  refine ⟨r',hr,?_⟩
  rw [hsm.id,hsm.srcPort,hsm.server,hs.1,hs.2.1,hs.2.2]
  exact ⟨hid,hp,hd,hdstPort,hipv6⟩

/-- Every question that was sent is as it was recorded. -/
def Faithful (cfg : Config) (s : Work × (ℕ → Option Sent)) : Prop :=
  Named cfg s.1 ∧ ∀ i < cfg.dnsQueries,(s.1.query i).state=.sent → Recorded s.1 (s.2 i) i

theorem Slot.continues {w' : Work} {i : ℕ} (h : Slot w w' i) (hs : (w'.query i).state=.sent) :
    Continues (w.query i) (w'.query i) := by
  cases h with
  | freed hf => exact absurd (hf.symm.trans hs) (by decide)
  | asked hn _ => exact absurd (hn.symm.trans hs) (by decide)
  | moved _ _ hc => exact hc hs

theorem logged_faithful (s : Work × (ℕ → Option Sent)) (c : Call) (h : Faithful cfg s) (hc : Steady cfg s c) :
    Faithful cfg (logged cfg s c) := by
  obtain ⟨w,g⟩ := s
  obtain ⟨hn,hr⟩ := h
  have hnamed' := step_named c hn
  by_cases hbl : ∃ a nowMs,c=.build a nowMs
  · obtain ⟨a,nowMs,rfl⟩ := hbl
    rcases build_spec w a nowMs with hb|hb
    · have hl : logged cfg (w,g) (.build a nowMs)=(build cfg w a nowMs,g) := if_neg hb.status
      rw [hl]
      refine ⟨hnamed',fun i hi hs => ?_⟩
      have hcn := (hb.slot i).continues hs
      exact (hr i hi hcn.sent).continues hcn (by rw [hb.server]; exact ⟨rfl,rfl,rfl⟩)
    have hl : logged cfg (w,g) (.build a nowMs)=(build cfg w a nowMs,update g a.query (some _)) := if_pos hb.status
    rw [hl]
    refine ⟨hnamed',fun i hi hs => ?_⟩
    by_cases hia : i=a.query
    · subst hia
      refine ⟨_,update_self ..,hb.id.symm,hb.srcPort.symm,?_⟩
      rw [hb.server]
      exact ⟨hb.dst,hb.dstPort,hb.ipv6⟩
    have hsm := hb.others i hia
    have hw : (w.query i).state=.sent := (congrArg Query.state hsm).symm.trans hs
    show Recorded _ (update g a.query _ i) i
    rw [update_of_ne hia]
    refine (hr i hi hw).continues ⟨hw,?_,?_,?_⟩ (by rw [hb.server]; exact ⟨rfl,rfl,rfl⟩)
    all_goals rw [hsm]
  · have hsl := fun i (hi : i < cfg.dnsQueries) => step_slot hn (fun a nowMs heq => hbl ⟨a,nowMs,heq⟩) hi
    have hl : logged cfg (w,g) c=(step cfg w c,g) := by
      cases c with
      | build a nowMs => exact absurd ⟨a,nowMs,rfl⟩ hbl
      | _ => rfl
    rw [hl]
    refine ⟨hnamed',fun i hi hs => ?_⟩
    have hcn := (hsl i hi).continues hs
    refine (hr i hi hcn.sent).continues hcn ?_
    by_cases hst : ∃ a,c=.setServer a
    · obtain ⟨a,rfl⟩ := hst
      by_cases hk : (w.query i).server=a.index
      · rw [hk]
        exact hc i hi hcn.sent hk
      have hsm : (step cfg w (.setServer a)).server (w.query i).server=_ := setServer_server hk
      rw [hsm]
      exact ⟨rfl,rfl,rfl⟩
    · rw [step_server hn fun a heq => hst ⟨a,heq⟩]
      exact ⟨rfl,rfl,rfl⟩

/-- In every run that replaces no server a question waits for, a message changes a question only if it comes from
where that was sent, with its identity. -/
theorem run_credible (cfg : Config) (calls : List Call) (hsteady : Along (logged cfg) (Steady cfg) (clear,fun _ => none) calls)
    (a : InputArgs) (nowMs : BitVec 32) (i : ℕ)
    (hchanged : (input cfg (run (logged cfg) (clear,fun _ => none) calls).1 a nowMs).query i≠
      (run (logged cfg) (clear,fun _ => none) calls).1.query i) :
    Credible ((run (logged cfg) (clear,fun _ => none) calls).2 i) a := by
  have hfaithful : Faithful cfg (run (logged cfg) (clear,fun _ => none) calls) :=
    run_invariant logged_faithful ⟨fun _ _ h => absurd rfl h,nofun⟩ hsteady
  generalize run (logged cfg) (clear,fun _ => none) calls=s at hfaithful hchanged ⊢
  obtain ⟨w,g⟩ := s
  rcases input_spec hfaithful.1 with h|⟨octets,src,j,hmsg,hsrc,hj,hans,-,htook⟩
  · exact absurd (congrFun h.query i) hchanged
  by_cases hij : i=j
  · subst hij
    have hsent := state_of_addressed hans.addressed
    obtain ⟨r,hr,hid,hport,hdst,hdstPort,hipv6⟩ := (hfaithful.2 i hj hsent).report
    have haddr := hans.addressed
    unfold addressed at haddr
    simp only [Bool.and_eq_true,decide_eq_true_eq] at haddr
    obtain ⟨⟨⟨-,hid',hport',-,-,hipv6',hdstPort'⟩,hsame⟩,-⟩ := haddr
    exact ⟨r,octets,src,hr,hmsg,hsrc,hipv6'.symm.trans hipv6.symm,hdst ▸ hsame,hdstPort'.symm.trans hdstPort.symm,
      hport'.symm.trans hport.symm,(hid.trans hid').symm⟩
  · exact absurd (htook.others i hij) hchanged

theorem run_credible_asking : Credible ((run (logged .shipped) (clear,fun _ => none) askingCalls).2 0) twoLabelsArgs := by
  have hsteady : Along (logged .shipped) (Steady .shipped) (clear,fun _ => none) askingCalls :=
    ⟨trivial,nofun,trivial,trivial,trivial⟩
  refine run_credible .shipped askingCalls hsteady twoLabelsArgs 0 0 fun h => ?_
  have hstate : ((input .shipped (run (logged .shipped) (clear,fun _ => none) askingCalls).1 twoLabelsArgs 0).query 0).state≠
      ((run (logged .shipped) (clear,fun _ => none) askingCalls).1.query 0).state := by
    decide +kernel
  exact hstate (congrArg Query.state h)

/-- The same question, and then another server is put in the place of the first. -/
def replacedCalls : List Call := askingCalls++[.setServer ⟨0,some (.ofList [2,2,2,2]),0,0,false⟩]

/-- A response of the other server. -/
def strangerArgs : InputArgs := {twoLabelsArgs with src := some (.ofList [2,2,2,2])}

/-- The question, which was sent to the first server, is answered by the other one. -/
theorem stranger_believed :
    ((input .shipped (run (logged .shipped) (clear,fun _ => none) replacedCalls).1 strangerArgs 0).query 0).state=.done ∧
      ¬Credible ((run (logged .shipped) (clear,fun _ => none) replacedCalls).2 0) strangerArgs := by
  refine ⟨by decide +kernel,?_⟩
  rintro ⟨r,octets,src,hr,-,hsrc,-,hsame,-⟩
  cases hsrc
  have hdst : ((run (logged .shipped) (clear,fun _ => none) replacedCalls).2 0).map (fun r => r.dst 0)=some 1 := by
    decide +kernel
  rw [hr] at hdst
  have hfirst := Octets.bytesEq_iff.1 hsame 0 (by decide)
  have hone : r.dst 0=1 := Option.some.inj hdst
  rw [hone] at hfirst
  exact absurd hfirst (by decide)

end Credibility

end Truth

section Lifetimes

open StepRun IndexChain BitVec Function List

variable (cfg : Config)

/-- The slot a response that was taken is cached in. -/
def stored (w u : Work) (nowMs : BitVec 32) : Option ℕ :=
  if u.io.status=.ok ∧ (u.io.rcode=3 ∨ u.io.ttlS≠0) then
    some (cacheSlot cfg w (w.name u.io.query) (w.query u.io.query).type nowMs)
  else none

/-- The slot a message is cached in. -/
def cachedSlot (w : Work) (a : InputArgs) (nowMs : BitVec 32) : Option ℕ :=
  match w.cfg with
  | none => none
  | some s =>
    match take cfg w a s.retries nowMs with
    | .error _ => none
    | .ok u => stored cfg w u nowMs

/-- What a call does to the cached answers: nothing, or one is put in a slot that ends when its life is over. -/
inductive Stores (old new : ℕ → Entry) (nowMs : BitVec 32) : Option ℕ → Prop
  | kept (h : new=old) : Stores old new nowMs none
  | put (j : ℕ) (e : Entry) (h : new=update old j e) (hend : e.expireMs=nowMs+e.ttlS*1000)
      (hvalid : e.state=.valid → e.ttlS≠0) : Stores old new nowMs (some j)

/-- The slot a name is answered from. -/
def served (w : Work) (a : LookupArgs) (nowMs : BitVec 32) : Option ℕ :=
  if w.cfg.isNone then none
  else
    match a.name with
    | none => none
    | some name =>
      if name 0=0 ∨ ((queryFind cfg w name a.type).filter fun i => (w.query i).gaveUp).isSome then none
      else cacheFind cfg w name a.type nowMs

/-- A lookup by a resolver that is bound says something of the name: its address, or the type it has no record of. -/
def Work.answers (w u : Work) : Bool := w.cfg.isSome && (decide (u.io.status=.ok) || decide (u.io.type≠0))

variable {cfg} {w u : Work}

theorem cacheSlot_same {v : Work} (he : v.entry=w.entry) (hn : v.name=w.name) (text : Octets)
    (type : BitVec 16) (now : BitVec 32) : cacheSlot cfg v text type now=cacheSlot cfg w text type now := by
  have hf : ∀ n j oldest,cacheSlotFrom v now n j oldest=cacheSlotFrom w now n j oldest := by
    intro n
    induction n with
    | zero => intros; rfl
    | succ n ih =>
      intro j oldest
      unfold cacheSlotFrom
      rw [he]
      simp only [ih]
  simp only [cacheSlot,cacheFind,he,hn,hf]

/-- What a response tells if it gives an address: the lifetime read, for which the address is cached unless it is zero. -/
def Tells (cfg : Config) (w u : Work) (m : Message) (nowMs : BitVec 32) : Prop :=
  (w.query u.io.query).state≠.done → (u.query u.io.query).state=.done →
    ∃ e ancount addr,nameEnd m 12=.ok (some e) ∧ m.rd16 6=.ok ancount ∧
      answersRead cfg m (e+4) ancount (w.query u.io.query).type=.ok (some (addr,u.io.ttlS)) ∧
      ∃ j,∃ t : Entry,u.entry=if u.io.ttlS=0 then w.entry
        else update w.entry j {t with ttlS := u.io.ttlS,expireMs := nowMs+u.io.ttlS*1000}

section Stored

variable {nowMs : BitVec 32}

theorem bind_ok {α β : Type} {x : Except Stop α} {f : α → Except Stop β} {b : β} (h : (x >>= f)=.ok b) :
    ∃ a,x=.ok a ∧ f a=.ok b := by
  cases x with
  | error => cases h
  | ok a => exact ⟨a,rfl,h⟩

theorem Stores.unstored (hno : u.io.status=.err ∨ u.io.rcode≠3 ∧ u.io.ttlS=0) (h : u.entry=w.entry) :
    Stores w.entry u.entry nowMs (stored cfg w u nowMs) := by
  have hn : stored cfg w u nowMs=none := by
    refine if_neg fun hok => ?_
    obtain hst|⟨hr,ht⟩ := hno
    · exact absurd (hst.symm.trans hok.1) (by decide)
    · exact hok.2.elim hr fun hne => hne ht
  rw [hn]
  exact .kept h

variable {i : ℕ} {m : Message} {tries : BitVec 8}

theorem Stores.caught {v : Work} {e : Entry} (hq : v.io.query=i) (ht : (w.query i).type=e.type)
    (hl : v.io.rcode=3 ∨ v.io.ttlS≠0) (he : v.entry=w.entry) (hn : v.name=w.name)
    (hen : e.expireMs=nowMs+e.ttlS*1000) (hv : e.state=.valid → e.ttlS≠0) :
    Stores w.entry ((cacheAnswer cfg v i nowMs e).report .ok).entry nowMs
      (stored cfg w ((cacheAnswer cfg v i nowMs e).report .ok) nowMs) := by
  rw [stored,if_pos ⟨rfl,hl⟩]
  refine .put _ e ?_ hen hv
  change update v.entry (cacheSlot cfg v (v.name i) e.type nowMs) e=
    update w.entry (cacheSlot cfg w (w.name v.io.query) (w.query v.io.query).type nowMs) e
  rw [cacheSlot_same he hn,he,hn,hq,ht]

theorem Tells.of_update {q : Query} (hq : u.query u.io.query=q)
    (hs : q.state=(w.query u.io.query).state ∨ q.state≠.done) : Tells cfg w u m nowMs := fun hb hd =>
  absurd (hq ▸ hd) (hs.elim (fun h => h ▸ hb) id)

theorem takeMatched_stores {f : Io → Io} {flags : BitVec 16} (hst : (f w.io).status=.err) (ht : (f w.io).ttlS=0)
    (h : takeMatched cfg (w.mapIo f) m flags tries nowMs i=.ok u) :
    u.cfg=w.cfg ∧ Stores w.entry u.entry nowMs (stored cfg w u nowMs) ∧ Tells cfg w u m nowMs := by
  obtain ⟨ancount,hc,h⟩ := bind_ok h
  split at h
  · cases h
    exact ⟨rfl,.unstored (.inl hst) rfl,.of_update rfl (.inl rfl)⟩
  change ite _ _ _=_ at h
  split at h
  · cases h
    unfold takeError
    extract_lets v
    split
    · rename_i hr
      exact ⟨rfl,.caught rfl rfl (.inl hr) rfl rfl rfl fun hs => EntryState.noConfusion hs,
        .of_update (update_self i _ _) (.inr nofun)⟩
    · rename_i hr
      refine ⟨rfl,.unstored (.inr ⟨hr,ht⟩) rfl,.of_update (update_self i _ _) (.inr fun hd => ?_)⟩
      rcases advance_state with h|h <;> cases h.symm.trans hd
  rename_i hz
  have hp : (flags &&& 0x000F).setWidth 8≠(3 : BitVec 8) := by
    intro h3
    exact hz fun h0 => absurd (h3.symm.trans h0) (by decide)
  obtain ⟨qend,he,h⟩ := bind_ok h
  cases qend with
  | none =>
    cases h
    exact ⟨rfl,.unstored (.inl hst) rfl,.of_update (update_self i _ _) (.inl rfl)⟩
  | some qend =>
    obtain ⟨found,hf,h⟩ := bind_ok h
    cases found with
    | none =>
      cases h
      exact ⟨rfl,.unstored (.inr ⟨hp,ht⟩) rfl,.of_update (update_self i _ _) (.inr nofun)⟩
    | some f =>
      obtain ⟨addr,ttl⟩ := f
      change ite _ _ _=_ at h
      split at h
      · rename_i hl
        cases h
        exact ⟨rfl,.caught rfl rfl (.inr hl) rfl rfl rfl fun _ => hl,fun _ _ =>
          ⟨qend,ancount,addr,he,hc,hf,_,⟨addr,0,0,_,.valid,_,0⟩,(if_neg hl).symm⟩⟩
      rename_i hdd
      have hdd := not_not.mp hdd
      cases h
      exact ⟨rfl,.unstored (.inr ⟨hp,hdd⟩) rfl,fun _ _ =>
        ⟨qend,ancount,addr,he,hc,hf,0,.zero,(if_pos hdd).symm⟩⟩

theorem take_stores {a : InputArgs} (h : take cfg w a tries nowMs=.ok u) :
    u.cfg=w.cfg ∧ Stores w.entry u.entry nowMs (stored cfg w u nowMs) ∧
      ∃ octets,(u.query≠w.query → a.msg=some octets) ∧ Tells cfg w u ⟨octets,a.len⟩ nowMs := by
  unfold take at h
  extract_lets v at h
  have hk : pure v=Except.ok (ε := Stop) u → u.cfg=w.cfg ∧ Stores w.entry u.entry nowMs (stored cfg w u nowMs) ∧
      ∃ octets,(u.query≠w.query → a.msg=some octets) ∧ Tells cfg w u ⟨octets,a.len⟩ nowMs := by
    intro h
    rw [←show v=u from Except.ok.inj h]
    exact ⟨rfl,.unstored (.inl rfl) rfl,.zero,fun hq => absurd rfl hq,.of_update rfl (.inl rfl)⟩
  split at h
  · rename_i hm _
    split at h
    · exact hk h
    extract_lets m at h
    obtain ⟨flags,-,h⟩ := bind_ok h
    split at h
    · exact hk h
    split at h
    · exact hk h
    obtain ⟨qdcount,-,h⟩ := bind_ok h
    split at h
    · exact hk h
    obtain ⟨matched,-,h⟩ := bind_ok h
    cases matched with
    | none => exact hk h
    | some i =>
      obtain ⟨hc,hs,ht⟩ := takeMatched_stores rfl rfl h
      exact ⟨hc,hs,_,fun _ => hm,ht⟩
  · exact hk h

end Stored

/-- The end of an answer's life is behind the clock, and not half a circle behind it. -/
theorem reached_of_le {X T : ℕ} (hle : X≤T) (hlt : T<X+2^31) : reached (BitVec.ofNat 32 T) (BitVec.ofNat 32 X) := by
  have hs : (BitVec.ofNat 32 T-BitVec.ofNat 32 X).toNat=T-X := by
    rw [toNat_sub,toNat_ofNat,toNat_ofNat]
    omega
  unfold reached
  rw [decide_eq_true_eq,le_def,hs]
  change T-X≤2147483647
  omega

/-- The reading of the clock a call is made at. -/
def Call.reading : Call → Option (BitVec 32)
  | .lookup _ nowMs | .build _ nowMs | .input _ nowMs | .tick nowMs => some nowMs
  | _ => none

/-- The operands of a lookup. -/
def Call.looked : Call → Option (LookupArgs × BitVec 32)
  | .lookup a nowMs => some (a,nowMs)
  | _ => none

/-- A resolver with the clock since its start, whether it was ticked now, and when each answer was cached. -/
structure Lived where
  work : Work
  clock : ℕ
  ticked : Bool
  born : ℕ → ℕ

/-- The instant an answer ends. -/
def Lived.life (s : Lived) (j : ℕ) : ℕ := s.born j+1000*(s.work.entry j).ttlS.toNat

/-- The resolver before its first call. -/
def Lived.start : Lived := ⟨clear,0,true,fun _ => 0⟩

variable (cfg) (s : Lived) (e : ℕ × Call)

/-- A call at an instant. -/
def live : Lived where
  work := step cfg s.work e.2
  clock := e.1
  ticked :=
    match e.2 with
    | .tick _ => true
    | _ => s.ticked && e.1==s.clock
  born :=
    match e.2 with
    | .input a nowMs => (cachedSlot cfg s.work a nowMs).elim s.born fun j => update s.born j e.1
    | _ => s.born

/-- The clock does not go back, and goes on by less than half a circle after a tick. -/
def Paced : Prop :=
  e.2.reading.getD (BitVec.ofNat 32 e.1)=BitVec.ofNat 32 e.1 ∧ s.clock≤e.1 ∧ (s.clock<e.1 → s.ticked ∧ e.1 < s.clock+2^31)

/-- No answer that says a name does not exist ended half a circle ago when a name is looked up. -/
def Fresh : Prop :=
  e.2.looked.isSome → ∀ j < cfg.dnsEntries,(s.work.entry j).state=.negative → e.1 < s.life j+2^31

/-- A name is answered, also that there is none, only from a slot, and with nothing that has ended. -/
def Timely : Prop :=
  ∀ r∈e.2.looked,(s.work.answers (lookup cfg s.work r.1 r.2) → (served cfg s.work r.1 r.2).isSome) ∧
    ∀ j∈served cfg s.work r.1 r.2,e.1 ≤ s.life j

instance (s : Lived) (e : ℕ × Call) : Decidable (Paced s e) := inferInstanceAs (Decidable (_ ∧ _ ∧ (_ → _ ∧ _)))

instance (s : Lived) (e : ℕ × Call) : Decidable (Fresh cfg s e) := inferInstanceAs (Decidable (_ → ∀ j<_,_ → _))

instance (s : Lived) (e : ℕ × Call) : Decidable (Timely cfg s e) :=
  inferInstanceAs (Decidable (∀ r∈e.2.looked,(_=true → _=true) ∧ ∀ j∈served cfg s.work r.1 r.2,e.1 ≤ s.life j))

/-- What ends when, and that no valid answer ended before the last reading. -/
structure Aged (s : Lived) : Prop where
  unbound : s.work.cfg=none → ∀ j,(s.work.entry j).state=.free
  ends : ∀ j < cfg.dnsEntries,(s.work.entry j).state≠.free → (s.work.entry j).expireMs=BitVec.ofNat 32 (s.life j)
  valid : ∀ j < cfg.dnsEntries,(s.work.entry j).state=.valid → s.clock < s.life j+2^31 ∧ (s.ticked → s.clock < s.life j)

variable {cfg}

variable {T j : ℕ} {a : LookupArgs}

variable {s} (h : Aged cfg s) (hle : s.clock≤T) (hgap : s.clock<T → s.ticked=true ∧ T < s.clock+2^31)
include h hle hgap

/-- A valid answer has not been over for half a circle at the next reading. -/
theorem Aged.near (hj : j < cfg.dnsEntries) (hv : (s.work.entry j).state=.valid) : T < s.life j+2^31 := by
  have ho := h.valid j hj hv
  rcases hle.eq_or_lt with rfl|hlt
  · exact ho.1
  · have hlife := ho.2 (hgap hlt).1
    omega

/-- One turn of the clock: an answer stays, unless the call swept it, or was put in just now. -/
theorem Aged.turn {ticked : Bool} {born : ℕ → ℕ} (hc : u.cfg=none → s.work.cfg=none ∧ u.entry=s.work.entry)
    (hen : ∀ j < cfg.dnsEntries,(u.entry j).state≠.free →
      u.entry j=s.work.entry j ∧ born j=s.born j ∧ (ticked → s.ticked ∧ T=s.clock ∨
        ((u.entry j).state=.valid → reached (BitVec.ofNat 32 T) (u.entry j).expireMs=false)) ∨
      (u.entry j).expireMs=BitVec.ofNat 32 T+(u.entry j).ttlS*1000 ∧
        ((u.entry j).state=.valid → (u.entry j).ttlS≠0) ∧ born j=T) : Aged cfg ⟨u,T,ticked,born⟩ := by
  refine ⟨fun hnn => ?_,fun j hj hl => ?_,fun j hj hv => ?_⟩
  · obtain ⟨ho,hsm⟩ := hc hnn
    rw [hsm]
    exact h.unbound ho
  · change (u.entry j).expireMs=BitVec.ofNat 32 (born j+1000*(u.entry j).ttlS.toNat)
    rcases hen j hj hl with ⟨he,hb,-⟩|⟨he,-,hb⟩
    · rw [hb,he]
      exact h.ends j hj (he ▸ hl)
    rw [hb,he]
    refine eq_of_toNat_eq ?_
    rw [toNat_add,toNat_mul,toNat_ofNat,toNat_ofNat,show (1000 : BitVec 32).toNat=1000 from rfl]
    omega
  · change T<born j+1000*(u.entry j).ttlS.toNat+2^31 ∧ (ticked → T<born j+1000*(u.entry j).ttlS.toNat)
    have hl : (u.entry j).state≠.free := fun hf => EntryState.noConfusion (hv.symm.trans hf)
    rcases hen j hj hl with ⟨he,hb,hk⟩|⟨-,he,hb⟩
    · have hlf : born j+1000*(u.entry j).ttlS.toNat=s.life j := by rw [hb,he]; rfl
      have hn := h.near hle hgap hj (he ▸ hv)
      rw [hlf]
      refine ⟨hn,fun ht => ?_⟩
      rcases hk ht with ⟨hw,rfl⟩|hs
      · exact (h.valid j hj (he ▸ hv)).2 hw
      by_contra hnt
      have hend : (u.entry j).expireMs=BitVec.ofNat 32 (s.life j) := he ▸ h.ends j hj (he ▸ hl)
      have hr := reached_of_le (not_lt.mp hnt) hn
      rw [←hend,hs hv] at hr
      cases hr
    · have hpos : 0<(u.entry j).ttlS.toNat := Nat.pos_of_ne_zero fun h0 => he hv (eq_of_toNat_eq h0)
      exact ⟨by omega,fun _ => by omega⟩

theorem Aged.idle (hc : u.cfg=none → s.work.cfg=none)
    (he : u.entry=s.work.entry) : Aged cfg ⟨u,T,s.ticked && T==s.clock,s.born⟩ := by
  refine h.turn hle hgap (fun hn => ⟨hc hn,he⟩) fun j _ _ => .inl ⟨congrFun he j,rfl,fun ht => ?_⟩
  rw [Bool.and_eq_true,beq_iff_eq] at ht
  exact .inl ht

omit h hle hgap

theorem input_stores (w : Work) (a : InputArgs) (now : BitVec 32) : (input cfg w a now).cfg=w.cfg ∧
    Stores w.entry (input cfg w a now).entry now (cachedSlot cfg w a now) ∧
    (w.cfg=none → (input cfg w a now).entry=w.entry) := by
  cases hw : w.cfg with
  | none =>
    simp only [input,cachedSlot,hw]
    exact ⟨hw,.kept rfl,fun _ => rfl⟩
  | some st =>
    cases ht : take cfg w a st.retries now with
    | error =>
      simp only [input,cachedSlot,hw,ht]
      exact ⟨trivial,.kept rfl,nofun⟩
    | ok u =>
      obtain ⟨hc,hs,-⟩ := take_stores ht
      simp only [input,cachedSlot,hw,ht]
      exact ⟨hc.trans hw,hs,nofun⟩

/-- Calls that neither bind nor touch the cache. -/
def Call.apart : Call → Prop
  | .bind _ | .input _ _ | .tick _ | .flush => False
  | _ => True

theorem step_apart {w : Work} {c : Call} (hc : c.apart) : (step cfg w c).cfg=w.cfg ∧ (step cfg w c).entry=w.entry := by
  have hr : (step cfg w c).rest=w.rest → (step cfg w c).cfg=w.cfg ∧ (step cfg w c).entry=w.entry := fun h =>
    ⟨congrArg Prod.fst h,congrArg (fun r => r.2.1) h⟩
  cases c with
  | bind | input | tick | flush => exact hc.elim
  | setServer a =>
    dsimp only [step,setServer]
    split
    · split <;> exact ⟨rfl,rfl⟩
    · exact ⟨rfl,rfl⟩
  | query a => exact hr (query_rest w a)
  | lookup a nowMs => exact hr (lookup_rest w a nowMs)
  | build a nowMs => exact hr (build_rest w a nowMs)
  | cancel i =>
    dsimp only [step,cancel]
    split
    · exact ⟨rfl,rfl⟩
    split <;> exact ⟨rfl,rfl⟩

theorem live_aged {s : Lived} (h : Aged cfg s) {e : ℕ × Call} (hp : Paced s e) : Aged cfg (live cfg s e) := by
  obtain ⟨T,c⟩ := e
  obtain ⟨hr,hle,hgap⟩ := hp
  have hi : c.apart → Aged cfg ⟨step cfg s.work c,T,s.ticked && T==s.clock,s.born⟩ := fun hc =>
    h.idle hle hgap (fun hn => (step_apart hc).1.symm.trans hn) (step_apart hc).2
  cases c with
  | bind settings =>
    have hb : (bind cfg s.work settings).entry=s.work.entry ∧ ((bind cfg s.work settings).cfg=none → s.work.cfg=none) := by
      unfold bind
      split
      · exact ⟨rfl,fun hn => hn⟩
      split
      · exact ⟨rfl,fun hn => hn⟩
      · exact ⟨rfl,nofun⟩
    exact h.idle hle hgap hb.2 hb.1
  | input a nowMs =>
    have hnw : nowMs=BitVec.ofNat 32 T := hr
    subst hnw
    obtain ⟨hcf,hs,hu⟩ := @input_stores cfg s.work a (BitVec.ofNat 32 T)
    dsimp only [live,step]
    cases hsl : cachedSlot cfg s.work a (BitVec.ofNat 32 T) with
    | none =>
      rw [hsl] at hs
      cases hs with
      | kept hsm => exact h.idle hle hgap (fun hn => hcf.symm.trans hn) hsm
    | some k =>
      rw [hsl] at hs
      cases hs with
      | put _ e hpt he hv =>
        refine h.turn hle hgap (fun hn => ⟨hcf.symm.trans hn,hu (hcf.symm.trans hn)⟩) fun j hj _ => ?_
        rw [hpt]
        by_cases hjk : j=k
        · subst hjk
          rw [update_self]
          exact .inr ⟨he,hv,update_self ..⟩
        rw [update_of_ne hjk]
        refine .inl ⟨rfl,update_of_ne hjk ..,fun ht => ?_⟩
        rw [Bool.and_eq_true,beq_iff_eq] at ht
        exact .inl ht
  | tick nowMs =>
    have hnw : nowMs=BitVec.ofNat 32 T := hr
    subst hnw
    dsimp only [live,step,tick]
    split
    · rename_i hn
      exact h.turn hle hgap (fun _ => ⟨hn,rfl⟩) fun j _ hl => absurd (h.unbound hn j) hl
    rename_i hso
    refine h.turn hle hgap (fun hn => nomatch hso.symm.trans hn) fun j hj hl => ?_
    dsimp only [sweep,Work.report,Work.mapIo] at hl ⊢
    by_cases he : (decide (j < cfg.dnsEntries) && (decide ((s.work.entry j).state=.valid) &&
        reached (BitVec.ofNat 32 T) (s.work.entry j).expireMs))
    · rw [if_pos he] at hl
      exact absurd rfl hl
    rw [if_neg he]
    refine .inl ⟨rfl,rfl,fun _ => .inr fun hv => ?_⟩
    simpa [hj,hv] using he
  | flush =>
    dsimp only [live,step,flush]
    split
    · exact h.idle hle hgap (fun hn => hn) rfl
    rename_i hbn
    refine h.turn hle hgap (fun hn => absurd (Option.isNone_iff_eq_none.mpr hn) hbn) fun j hj hl => ?_
    exact absurd (congrArg Entry.state (if_pos hj)) hl
  | setServer | query | lookup | build | cancel => exact hi trivial

theorem start_aged : Aged cfg .start :=
  ⟨fun _ _ => rfl,fun _ _ hl => absurd rfl hl,fun _ _ hv => EntryState.noConfusion hv⟩

/-- A name is answered from a slot that is in use and not over at this reading. -/
theorem served_spec {now : BitVec 32} (h : served cfg w a now=some j) :
    j < cfg.dnsEntries ∧ (w.entry j).state≠.free ∧ reached now (w.entry j).expireMs=false := by
  unfold served at h
  split at h
  · cases h
  split at h
  · cases h
  split at h
  · cases h
  obtain ⟨hm,hj,-⟩ := firstIndex_some.mp h
  simp only [Bool.and_eq_true,decide_eq_true_eq,Bool.not_eq_true'] at hm
  exact ⟨hj,hm.1.1.1,hm.1.2⟩

/-- What a lookup says of a name is in the slot it is answered from: the address, or the error that was kept. -/
theorem lookup_served {now : BitVec 32} (h : w.answers (lookup cfg w a now)=true) :
    ∃ j,served cfg w a now=some j ∧ (lookup cfg w a now).io.ttlS=(w.entry j).ttlS ∧
      if (w.entry j).state=.negative then (lookup cfg w a now).io.rcode=(w.entry j).rcode
      else (lookup cfg w a now).io.addr=(w.entry j).addr := by
  unfold Work.answers at h
  rw [Bool.and_eq_true,Option.isSome_iff_ne_none,ne_eq,←Option.isNone_iff_eq_none] at h
  obtain ⟨hc,h⟩ := h
  unfold lookup served
  unfold lookup at h
  rw [if_neg hc] at h ⊢
  rw [if_neg hc]
  unfold lookupCached at h ⊢
  cases hn : a.name with
  | none =>
    rw [hn] at h
    cases h
  | some name =>
    rw [hn] at h
    dsimp only at h ⊢
    split at h
    · cases h
    rename_i he
    split at h
    · cases h
    rename_i hp
    have hnt : ¬((queryFind cfg w name a.type).filter fun i => (w.query i).gaveUp).isSome := fun hsm =>
      absurd (hp.symm.trans (Option.eq_some_iff_get_eq.mpr ⟨hsm,rfl⟩)) nofun
    rw [if_neg he,if_neg (not_or.mpr ⟨he,hnt⟩)]
    split at h
    · cases h
    rename_i j hf
    refine ⟨j,hf,?_⟩
    by_cases hs : (w.entry j).state=.negative
    · rw [if_pos hs]
      exact ⟨congrArg (fun u : Work => u.io.ttlS) (if_pos hs),congrArg (fun u : Work => u.io.rcode) (if_pos hs)⟩
    · rw [if_neg hs]
      exact ⟨congrArg (fun u : Work => u.io.ttlS) (if_neg hs),congrArg (fun u : Work => u.io.addr) (if_neg hs)⟩

/-- Along every paced run whose lookups find no negative answer half a circle past its end, no name is answered with
what ended. -/
theorem run_timely (es : List (ℕ × Call)) (h : Along (live cfg) (fun s e => Paced s e ∧ Fresh cfg s e) .start es) :
    Along (live cfg) (Timely cfg) .start es := by
  have hkeep : ∀ s e,Aged cfg s → Paced s e ∧ Fresh cfg s e → Aged cfg (live cfg s e) := fun s e hs hok =>
    live_aged hs hok.1
  refine Along.imp hkeep (fun s e h hok => ?_) start_aged h
  obtain ⟨⟨hread,hle,hgap⟩,hfresh⟩ := hok
  obtain ⟨T,c⟩ := e
  cases c with
  | lookup a nowMs =>
    rintro r ⟨⟩
    refine ⟨fun hsaid => ?_,fun j hj => ?_⟩
    · obtain ⟨j,hj,-⟩ := lookup_served hsaid
      rw [hj]
      rfl
    obtain ⟨hlt,hlive,hnot⟩ := served_spec hj
    have hnow : nowMs=BitVec.ofNat 32 T := hread
    have hnear : T < s.life j+2^31 := by
      cases hstate : (s.work.entry j).state with
      | free => exact absurd hstate hlive
      | valid => exact h.near hle hgap hlt hstate
      | negative => exact hfresh rfl j hlt hstate
    by_contra hover
    have hreached := reached_of_le (not_le.mp hover).le hnear
    rw [←hnow,←h.ends j hlt hlive,hnot] at hreached
    cases hreached
  | _ => exact nofun

/-- The question about `a.b` is answered with the error that there is no such name. -/
def absentArgs : InputArgs :=
  ⟨some (.ofList [0,7,0x80,3,0,1,0,0,0,0,0,0,1,0x61,1,0x62,0,0,1,0,1]),21,some (.ofList [1,1,1,1]),none,53,5000,false⟩

/-- The resolver learns at its start that there is no such name, and is ticked. -/
def absentCalls : List (ℕ × Call) := askingCalls.map (0,·)++[(0,.input absentArgs 0),(0,.tick 0)]

/-- The name is looked up at a reading. -/
def lookupAt (T : ℕ) : ℕ × Call := (T,.lookup ⟨some (.ofList [0x61,0x2E,0x62]),1⟩ (BitVec.ofNat 32 T))

theorem run_timely_absent : Along (live .shipped) (Timely .shipped) .start (absentCalls++[lookupAt 299999]) :=
  run_timely _ (by decide +kernel)

/-- Half a circle after its end the answer is served again. -/
theorem absent_served : Along (live .shipped) Paced .start (absentCalls++[(0x7FFFFFFF,.tick 0x7FFFFFFF),lookupAt 0x800493E0]) ∧
    ¬Along (live .shipped) (Timely .shipped) .start (absentCalls++[(0x7FFFFFFF,.tick 0x7FFFFFFF),lookupAt 0x800493E0]) := by
  decide +kernel

/-- The lifetimes records are held for. -/
def lifetimes (cfg : Config) (m : Message) (l : List Record) : List (BitVec 32) := l.map fun c => ttlClamp cfg (c.ttl m)

/-- A lifetime is the least of some. -/
def Least (ttl : BitVec 32) (l : List (BitVec 32)) : Prop := ttl∈l ∧ ∀ t∈l,ttl≤t

/-- The lifetime given is the least among those of the matching records. -/
theorem given_least {m : Message} {want : ℕ} {l : List Record} {f : Octets × BitVec 32} (h : given cfg m want l=some f) :
    Least f.2 (lifetimes cfg m l) := by
  induction l using reverseRecOn generalizing f with
  | nil => cases h
  | append_singleton l c ih =>
    rw [given_snoc] at h
    unfold lifetimes Least give at *
    simp only [map_append,map_cons,map_nil,mem_append,mem_singleton]
    split at h
    · rename_i hl
      rw [(given_isNone cfg m want l).1 (by rw [hl]; rfl)]
      cases h
      simp
    · rename_i addr ttl hl
      cases h
      obtain ⟨hm,hle⟩ := ih hl
      by_cases ht : ttlClamp cfg (c.ttl m)<ttl
      · simp only [if_pos ht,or_true,true_and]
        rintro t (h|rfl)
        · exact BitVec.le_trans (BitVec.le_of_lt ht) (hle t h)
        · exact BitVec.le_refl _
      · simp only [if_neg ht]
        refine ⟨.inl hm,?_⟩
        rintro t (h|rfl)
        · exact hle t h
        · exact BitVec.not_lt.1 ht

/-- The lifetime of an address is the least among the matching records exactly if every record parses, or one is zero,
and the address is cached for it. -/
theorem input_least_iff (cfg : Config) (w : Work) (a : InputArgs) (nowMs : BitVec 32) (hinput : input cfg w a nowMs=u)
    (hbefore : (w.query u.io.query).state≠.done) (hdone : (u.query u.io.query).state=.done) :
    ∃ m : Message,a.msg=some m.octets ∧ a.len=m.len ∧ Tells cfg w u m nowMs ∧ ∀ e ancount,nameEnd m 12=.ok (some e) →
      m.rd16 6=.ok ancount → let type := (w.query u.io.query).type
        let rs := records m ancount.toNat (e+4)
        let ttls := lifetimes cfg m (heard m type (if type=28 then 16 else 4) rs)
        (Least u.io.ttlS ttls ↔ rs.length=ancount.toNat ∨ 0∈ttls) := by
  unfold input at hinput
  split at hinput
  · cases hinput
    exact absurd hdone hbefore
  split at hinput
  · rename_i htake
    rw [hinput] at htake
    obtain ⟨-,-,octets,hmsg,htells⟩ := take_stores htake
    refine ⟨_,hmsg fun h => hbefore (h ▸ hdone),rfl,htells,fun e ancount he hcount => ?_⟩
    intro type rs ttls
    obtain ⟨e',ancount',addr,he',hcount',hread,-⟩ := htells hbefore hdone
    cases he.symm.trans he'
    cases hcount.symm.trans hcount'
    have hgiven := (answersFrom_records cfg _ type _ ancount.toNat (e+4) (12,[])).symm.trans hread
    have hgiven := Except.ok.inj hgiven
    split at hgiven
    · rename_i hlen
      exact iff_of_true (given_least hgiven) (.inl hlen)
    · rename_i hlen
      obtain ⟨g,-,hg⟩ := Option.map_eq_some_iff.1 hgiven
      rw [show u.io.ttlS=0 from congrArg Prod.snd hg.symm]
      exact ⟨fun h => .inr h.1,fun h => ⟨h.resolve_left hlen,fun _ _ => Nat.zero_le _⟩⟩
  · cases hinput
    exact absurd hdone hbefore

/-- A response with two addresses for `a.b`, the second of them for a minute. -/
def twoRecords : Message :=
  ⟨.ofList [0,7,0x80,0,0,1,0,2,0,0,0,0,1,0x61,1,0x62,0,0,1,0,1,0xC0,12,0,1,0,1,0,0,0,120,0,4,9,9,9,9,
    0xC0,12,0,1,0,1,0,0,0,60,0,4,9,9,9,8],53⟩

/-- Both records parse, so the lifetime is the minute. -/
theorem input_least_twoRecords :
    let u := input .shipped asking ⟨some twoRecords.octets,53,some (.ofList [1,1,1,1]),none,53,5000,false⟩ 0
    let rs := records twoRecords 2 21
    let ttls := lifetimes .shipped twoRecords (heard twoRecords (asking.query u.io.query).type 4 rs)
    Tells .shipped asking u twoRecords 0 ∧ u.io.ttlS=60 ∧ ttls=[120,60] ∧ (Least u.io.ttlS ttls ↔ rs.length=2 ∨ 0∈ttls) := by
  intro u rs ttls
  obtain ⟨⟨octets,len⟩,hmsg,hlen,htells,hleast⟩ :=
    input_least_iff .shipped asking _ 0 (rfl : input .shipped asking _ 0=u) (by decide +kernel) (by decide +kernel)
  cases hmsg
  cases hlen
  exact ⟨htells,by decide +kernel,by decide +kernel,hleast 17 2 (by decide +kernel) (by decide +kernel)⟩

/-- The response with the address for `a.b`, whose header counts one more record. -/
def cut : Message :=
  ⟨.ofList [0,7,0x80,0,0,1,0,2,0,0,0,0,1,0x61,1,0x62,0,0,1,0,1,0xC0,12,0,1,0,1,0,0,0,60,0,4,9,9,9,9],37⟩

/-- The address is taken without the minute its record gives it. -/
theorem cut_lifeless : let u := input .shipped asking {twoLabelsArgs with msg := some cut.octets} 0
    (asking.query u.io.query).state≠.done ∧ (u.query u.io.query).state=.done ∧ u.io.ttlS=0 ∧
      lifetimes .shipped cut (heard cut (asking.query u.io.query).type 4 (records cut 2 21))=[60] := by
  decide +kernel

end Lifetimes

section Uniqueness

open DomainName StepRun IndexChain Function List

section Texts

variable {held text : Octets} {T U : List (BitVec 8)}

theorem heldEqFrom_iff {n k : ℕ} (hT : Reads held k T) (hU : Reads text k U) (hn : U.length<n) :
    heldEqFrom held text n k=true ↔ T.map fold=U.map fold := by
  induction n generalizing k T U with
  | zero => omega
  | succ n ih =>
    have hf : ∀ c,fold c=0 ↔ c=0 := by decide
    rw [heldEqFrom,Bool.and_eq_true,Bool.or_eq_true,beq_iff_eq,beq_iff_eq]
    by_cases hz : text k=0
    · cases hU.eq_nil hz
      rw [hz,(hf 0).2 rfl,hf]
      constructor
      · exact fun h => by rw [hT.eq_nil h.1]
      · intro h
        cases map_eq_nil_iff.1 h
        exact ⟨hT,.inl rfl⟩
    obtain ⟨U,rfl,hU'⟩ := hU.eq_cons hz
    by_cases he : held k=0
    · cases hT.eq_nil he
      refine iff_of_false (fun h => hz ((hf _).1 ?_)) nofun
      rw [←h.1,he]
      rfl
    obtain ⟨T,rfl,hT'⟩ := hT.eq_cons he
    rw [or_iff_right hz,ih hT' hU' (by simpa using hn),map_cons,map_cons,cons.injEq]

theorem map_join (ls : List (List (BitVec 8))) :
    ([dot].intercalate ls).map fold=[fold dot].intercalate (ls.map (List.map fold)) := by
  induction ls with
  | nil => rfl
  | cons l ls ih =>
    cases ls with
    | nil => simp
    | cons m ms => simpa using ih

/-- Texts that do not end in a dot have the same labels only if they are the same. -/
theorem text_eq_of_labels (hT : T.getLast?≠some dot) (hU : U.getLast?≠some dot)
    (h : Same fold (labels dot T) (labels dot U)) : T.map fold=U.map fold := by
  rw [labels,labels,if_neg hT,if_neg hU] at h
  have hj := congrArg ([fold dot].intercalate) h
  rwa [←map_join,←map_join,intercalate_splitOn,intercalate_splitOn] at hj

end Texts

variable (cfg : Config) (w : Work)

/-- A slot holds a question about a text and a type. -/
def Asks (i : ℕ) (type : BitVec 16) (T : List (BitVec 8)) : Prop :=
  i < cfg.dnsQueries ∧ (w.query i).state≠.free ∧ (w.query i).type=type ∧ Reads (w.name i) 0 T

/-- No two slots hold a question about the same name and type. -/
def Unique : Prop :=
  ∀ i j type T U,Asks cfg w i type T → Asks cfg w j type U → Same fold (labels dot T) (labels dot U) → i=j

/-- A name that is asked for does not end in a dot. -/
def Call.undotted : Call → Prop
  | .query a => ∀ name T,a.name=some name → Reads name 0 T → T.getLast?≠some dot
  | _ => True

/-- The texts asked about differ for each type, and none ends in a dot. -/
structure Apart : Prop where
  named : Named cfg w
  apart : ∀ {i j type T U},Asks cfg w i type T → Asks cfg w j type U → T.map fold=U.map fold → i=j
  undotted : ∀ {i type T},Asks cfg w i type T → T.getLast?≠some dot

variable {cfg w} {w' : Work} {i j : ℕ} {type : BitVec 16} {T U : List (BitVec 8)}

theorem Asks.of_eq (h : Asks cfg w' j type T) (hq : w'.query j=w.query j) (hn : w'.name j=w.name j) :
    Asks cfg w j type T := by
  unfold Asks at h ⊢
  rwa [hq,hn] at h

/-- Calls other than `query` put no question in a slot. -/
theorem step_asks (hn : Named cfg w) {c : Call} (hc : ∀ a,c≠.query a) (h : Asks cfg (step cfg w c) j type T) :
    Asks cfg w j type T := by
  by_cases hb : ∃ a now,c=.build a now
  · obtain ⟨a,now,rfl⟩ := hb
    have hp : ∀ io q,q.type=(w.query a.query).type → (w.query a.query).state=.new →
        Asks cfg {w with query := update w.query a.query q,io} j type T → Asks cfg w j type T := by
      intro io q hq hnw h
      by_cases hj : j=a.query
      · subst hj
        obtain ⟨hlt,-,ht,hT⟩ := h
        refine ⟨hlt,by rw [hnw]; decide,hq.symm.trans ?_,hT⟩
        exact (congrArg Query.type (update_self a.query q w.query)).symm.trans ht
      · exact h.of_eq (update_of_ne hj _ _) rfl
    rcases build_cases with ⟨io,he,-⟩|⟨si,q,-,-,hnw,rfl,⟨io,he,-⟩|⟨io,he,-⟩⟩ <;> rw [step,he] at h
    · exact h
    · exact hp io _ (by rfl) hnw h
    · exact hp io _ (by rfl) hnw h
  obtain ⟨hlt,hl,ht,hT⟩ := h
  cases step_keeps hn hc (fun a now ha => hb ⟨a,now,ha⟩) hlt with
  | freed hf => exact absurd hf hl
  | moved hh hnm hs _ => exact ⟨hlt,hh,hs.symm.trans ht,hnm ▸ hT⟩

theorem query_asks {a : QueryArgs} (h : Asks cfg (query cfg w a) j type T) : Asks cfg w j type T ∨
    ∃ name,a.name=some name ∧ type=a.type ∧ Reads name 0 T ∧ T.length≤254 ∧
      querySlot cfg w (queryFind cfg w name a.type)=some j := by
  rcases query_cases with ⟨io,he⟩|⟨name,wire,n,i,io,hn,hl,hs,he⟩ <;> rw [he] at h
  · exact .inl h
  by_cases hji : j=i
  · subst hji
    obtain ⟨V,hV,rfl,hm⟩ := textWireLen_spec hl
    obtain ⟨-,-,ht,hT⟩ := h
    have hp : Reads (name.padded V.length) 0 T := by
      rwa [show (occupy cfg w a name V.length j).name j=name.padded V.length from update_self ..] at hT
    cases hp.unique (hV.reads.padded (Nat.zero_add _).symm)
    refine .inr ⟨name,hn,ht.symm.trans ?_,hV.reads,hm,hs⟩
    exact congrArg Query.type (update_self j (fresh cfg w a) w.query)
  · exact .inl (h.of_eq (update_of_ne hji _ _) (update_of_ne hji _ _))

/-- The slot a question is put in is that of the question about the same text, if there is one. -/
theorem Apart.slot_eq (h : Apart cfg w) {name : Octets} (hT : Reads name 0 T) (hlen : T.length≤254)
    (hs : querySlot cfg w (queryFind cfg w name type)=some i) (hj : Asks cfg w j type U) (hsm : U.map fold=T.map fold) :
    i=j := by
  have hb : T.length < cfg.dnsNameBytes := by
    have := cfg.dnsNameBytes_ge
    omega
  cases hf : queryFind cfg w name type with
  | none =>
    have hn := firstIndex_none.1 hf j hj.1
    have hh : heldEq cfg (w.name j) name=true := (heldEqFrom_iff hj.2.2.2 hT hb).2 hsm
    simp [hj.2.1,hj.2.2.1,hh] at hn
  | some k =>
    rw [hf] at hs
    cases hs
    obtain ⟨hk,hlt,-⟩ := firstIndex_some.1 hf
    simp only [Bool.and_eq_true,decide_eq_true_eq] at hk
    obtain ⟨V,hV⟩ := h.named i hlt hk.1.1
    exact h.apart ⟨hlt,hk.1.1,hk.1.2,hV.reads⟩ hj (((heldEqFrom_iff hV.reads hT hb).1 hk.2).trans hsm.symm)

theorem step_apart_texts (c : Call) (h : Apart cfg w) (hc : c.undotted) : Apart cfg (step cfg w c) := by
  have hn := step_named c h.named
  by_cases hq : ∃ a,c=.query a
  · obtain ⟨a,rfl⟩ := hq
    refine ⟨hn,fun hi hj hsm => ?_,fun hi => ?_⟩
    · rcases query_asks hi with hi|⟨name,hnm,rfl,hT,hl,hs⟩
      · rcases query_asks hj with hj|⟨name,-,rfl,hU,hl,hs⟩
        · exact h.apart hi hj hsm
        · exact (h.slot_eq hU hl hs hi hsm).symm
      · rcases query_asks hj with hj|⟨name',hname',-,-,-,hslot'⟩
        · exact h.slot_eq hT hl hs hj hsm.symm
        · cases hnm.symm.trans hname'
          exact Option.some.inj (hs.symm.trans hslot')
    · rcases query_asks hi with hi|⟨name,hnm,-,hT,-⟩
      · exact h.undotted hi
      · exact hc name _ hnm hT
  · have has : ∀ {j type T},Asks cfg (step cfg w c) j type T → Asks cfg w j type T := fun hj =>
      step_asks h.named (fun a ha => hq ⟨a,ha⟩) hj
    exact ⟨hn,fun hi hj => h.apart (has hi) (has hj),fun hi => h.undotted (has hi)⟩

/-- In every run that asks for no name ending in a dot, no two slots hold a question about the same name and type. -/
theorem run_unique (cfg : Config) (calls : List Call) (h : Along (step cfg) (fun _ c => c.undotted) clear calls) :
    Unique cfg (run (step cfg) clear calls) := by
  have hstart : Apart cfg clear := ⟨fun _ _ h => absurd rfl h,fun h => absurd rfl h.2.1,fun h => absurd rfl h.2.1⟩
  have hend := run_invariant (fun _ c => step_apart_texts c) hstart h
  intro i j type T U hi hj hsame
  exact hend.apart hi hj (text_eq_of_labels (hend.undotted hi) (hend.undotted hj) hsame)

/-- The address of `a.b` is asked for, spelled in two ways, and that of `c.d`. -/
def respelledCalls : List Call :=
  [.bind (some ⟨0,3⟩),.query ⟨some (.ofList [0x61,0x2E,0x62]),1,7,5000⟩,
    .query ⟨some (.ofList [0x41,0x2E,0x42]),1,8,5001⟩,.query ⟨some (.ofList [0x63,0x2E,0x64]),1,9,5002⟩]

theorem undotted_three {x y : BitVec 8} {type id port : BitVec 16} (hx : x≠0) (hy : y≠0) (hdot : y≠dot) :
    (Call.query ⟨some (.ofList [x,dot,y]),type,id,port⟩).undotted := by
  rintro name T hname hT
  cases hname
  have hreads : Reads (.ofList [x,dot,y]) 0 [x,dot,y] := by
    refine ⟨rfl,hx,rfl,by decide,rfl,hy,rfl⟩
  cases hT.unique hreads
  simpa using hdot

/-- The second spelling finds the question of the first, so two of the slots are live. -/
theorem run_unique_respelled : ((run (step .shipped) clear respelledCalls).query 0).state=.new ∧
      ((run (step .shipped) clear respelledCalls).query 1).state=.new ∧
      ((run (step .shipped) clear respelledCalls).query 2).state=.free ∧
      Unique .shipped (run (step .shipped) clear respelledCalls) := by
  refine ⟨by decide +kernel,by decide +kernel,by decide +kernel,run_unique .shipped respelledCalls ?_⟩
  exact ⟨trivial,undotted_three (by decide) (by decide) (by decide),undotted_three (by decide) (by decide) (by decide),
    undotted_three (by decide) (by decide) (by decide),trivial⟩

/-- The address of `a.b` is asked for, and that of `a.b.`. -/
def twice : Work :=
  run (step .shipped) clear [.bind (some ⟨0,3⟩),.query ⟨some (.ofList [0x61,0x2E,0x62]),1,7,5000⟩,
    .query ⟨some (.ofList [0x61,0x2E,0x62,0x2E]),1,8,5001⟩]

/-- Both questions are held, and both have the labels `a` and `b`. -/
theorem twice_held : (twice.query 0).state=.new ∧ (twice.query 1).state=.new ∧ ¬Unique .shipped twice := by
  refine ⟨by decide +kernel,by decide +kernel,fun h => ?_⟩
  have hasks : Asks .shipped twice 0 1 [0x61,0x2E,0x62] ∧ Asks .shipped twice 1 1 [0x61,0x2E,0x62,0x2E] := by
    simp only [Asks,Reads]
    decide +kernel
  exact absurd (h 0 1 1 _ _ hasks.1 hasks.2 (by unfold Same; decide)) (by decide)

end Uniqueness

end IdemIp.Dns
