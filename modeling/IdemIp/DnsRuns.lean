import IdemIp.Dns

/-!
# The address an answer gives, and the question it is taken for

A name leads to the owner of a record if it is that owner, or if an alias record
before it has the name as its owner and a target that leads on. The walk takes an
address only from a record the name asked about leads to. A message is taken for
the first question it is addressed to and echoes.
-/

namespace IdemIp.Dns

section Records

open DomainName List

/-- A record of a message: where its owner stands, and the fields behind it. -/
structure Record where
  (owner fixed : ℕ)

section Records

variable (m : Message)

def Record.type (r : Record) : BitVec 16 := (m.octets.drop r.fixed).rd16

def Record.cls (r : Record) : BitVec 16 := (m.octets.drop (r.fixed+2)).rd16

def Record.rdlen (r : Record) : ℕ := (m.octets.drop (r.fixed+8)).rd16.toNat

def Record.rdata (r : Record) : ℕ := r.fixed+10

/-- Records stand one behind the other from one offset to another. -/
inductive Section (start : ℕ) : List Record → ℕ → Prop
  | nil : Section start [] start
  | snoc {rs : List Record} {r : Record} (before : Section start rs r.owner) (hname : EndsAt m.octets m.len r.owner r.fixed)
      (hlen : r.rdata+r.rdlen m ≤ m.len) : Section start (rs++[r]) (r.rdata+r.rdlen m)

/-- A name is the one at an offset, or an alias among the records whose target leads there behind. -/
inductive Leads : List (List (BitVec 8)) → List Record → ℕ → Prop
  | here {name ls : List (List (BitVec 8))} {rs : List Record} {off k : ℕ} (hname : Unpacks m.octets m.len off ls k)
      (hsame : Same fold ls name) : Leads name rs off
  | cname {name ls ts : List (List (BitVec 8))} {pre post : List Record} {c : Record} {off k j : ℕ} (htype : c.type m=5)
      (hcls : c.cls m=1) (howner : Unpacks m.octets m.len c.owner ls k) (hsame : Same fold ls name)
      (htarget : Unpacks m.octets m.len c.rdata ts j) (rest : Leads ts post off) : Leads name (pre++c::post) off

/-- An address is the data of a record of the class and type asked for, of the right length, that a name leads to. -/
def GivenBy (name : List (List (BitVec 8))) (start : ℕ) (ancount : ℕ) (type : BitVec 16) (want : ℕ) (addr : Octets) : Prop :=
  ∃ rs r e,Section m start (rs++[r]) e ∧ rs.length<ancount ∧ r.cls m=1 ∧ r.type m=type ∧ r.rdlen m=want ∧
    addr=(m.octets.drop r.rdata).padded want ∧ Leads m name rs r.owner

end Records

variable {m : Message} {name : List (List (BitVec 8))} {rs : List Record} {off : ℕ}

theorem Section.nil_eq {start d : ℕ} (h : Section m start [] d) : d=start := by
  generalize hrs : []=rs at h
  cases h with
  | nil => rfl
  | snoc => simp at hrs

theorem Section.owner_eq {start d : ℕ} {r : Record} (h : Section m start [r] d) : r.owner=start := by
  generalize hrs : [r]=rs at h
  cases h with
  | nil => cases hrs
  | snoc before =>
    obtain ⟨hn,ho⟩ := append_inj' (show []++[r]=_++[_] from hrs) rfl
    cases ho
    exact Section.nil_eq (hn ▸ before)

theorem Leads.snoc (h : Leads m name rs off) (r : Record) : Leads m name (rs++[r]) off := by
  induction h with
  | here hn hs => exact .here hn hs
  | cname hty hc ho hs ht _ ih =>
    rw [append_assoc]
    exact .cname hty hc ho hs ht ih

theorem Leads.follow {c : Record} (h : Leads m name rs c.owner) (hty : c.type m=5) (hc : c.cls m=1)
    (ha : Alike m off c.rdata) : Leads m name (rs++[c]) off := by
  obtain ⟨ls,ts,k,j,hls,hts,hs⟩ := ha
  generalize ho : c.owner=o at h
  induction h with
  | here hn hname' =>
    subst ho
    exact .cname hty hc hn hname' hts (.here hls hs)
  | cname htype' hcls' how hsame' ht _ ih =>
    rw [append_assoc]
    exact .cname htype' hcls' how hsame' ht (ih ho)

theorem Message.rd32_ok {i : ℕ} (h : i+3 < m.len) : m.rd32 i=.ok ((m.octets.drop i).rd16++(m.octets.drop (i+2)).rd16) := by
  unfold Message.rd32
  rw [rd16_ok (by omega),rd16_ok (by omega)]
  rfl

theorem ofInterest_spec {m : Message} {rclass : BitVec 16} {owner interest : ℕ} :
    ∃ same,ofInterest m rclass owner interest=.ok same ∧ (same=true → rclass=1 ∧ Alike m owner interest) := by
  unfold ofInterest
  by_cases hc : rclass=1
  · obtain ⟨same,heq,ha⟩ := nameEqWire_spec
    exact ⟨same,(if_pos hc).trans heq,fun h => ⟨hc,ha h⟩⟩
  · exact ⟨false,if_neg hc,nofun⟩

section Walk

variable (cfg : Config) (m : Message) (type : BitVec 16) (want : ℕ)

/-- The lifetime a record carries. -/
def Record.ttl (r : Record) : BitVec 32 := (m.octets.drop (r.fixed+4)).rd16++(m.octets.drop (r.fixed+6)).rd16

/-- The records of a section up to the first that does not parse. -/
def records : ℕ → ℕ → List Record
  | 0,_ => []
  | n+1,p =>
    match nameEnd m p with
    | .ok (some fixed) =>
      let c : Record := ⟨p,fixed⟩
      if m.len < c.rdata+c.rdlen m then [] else c::records n (c.rdata+c.rdlen m)
    | _ => []

/-- A record is read behind others: where the name that the aliases reach stands, and the records that match it. -/
def hear (s : ℕ × List Record) (c : Record) : ℕ × List Record :=
  if ofInterest m (c.cls m) c.owner s.1≠.ok true then s
  else if c.type m=type ∧ c.rdlen m=want then (s.1,s.2++[c])
  else if c.type m=5 ∧ s.2=[] ∧ c.rdlen m≠0 then (c.rdata,s.2)
  else s

/-- The records of an answer section that match the question. -/
def heard (rs : List Record) : List Record := (rs.foldl (hear m type want) (12,[])).2

/-- The first address, with the least lifetime so far. -/
def give (found : Option (Octets × BitVec 32)) (c : Record) : Option (Octets × BitVec 32) :=
  match found with
  | none => some ((m.octets.drop c.rdata).padded want,ttlClamp cfg (c.ttl m))
  | some (addr,ttl) => some (addr,if ttlClamp cfg (c.ttl m)<ttl then ttlClamp cfg (c.ttl m) else ttl)

/-- What matching records give. -/
def given (l : List Record) : Option (Octets × BitVec 32) := l.foldl (give cfg m want) none

theorem given_snoc (l : List Record) (c : Record) : given cfg m want (l++[c])=give cfg m want (given cfg m want l) c :=
  foldl_concat _ _ _ _

theorem given_isNone (l : List Record) : (given cfg m want l).isNone ↔ l=[] := by
  induction l using reverseRecOn with
  | nil => exact iff_of_true rfl rfl
  | append_singleton l c _ =>
    rw [given_snoc]
    refine iff_of_false ?_ (by simp)
    unfold give
    split <;> exact nofun

theorem records_succ {n p fixed : ℕ} {c : Record} (he : nameEnd m p=.ok (some fixed)) (hc : ⟨p,fixed⟩=c) :
    records m (n+1) p=if m.len < c.rdata+c.rdlen m then [] else c::records m n (c.rdata+c.rdlen m) := by
  rw [records,he,←hc]

/-- The walk gives what the matching records of the section give, without a lifetime if a record does not parse. -/
theorem answersFrom_records (n p : ℕ) (s : ℕ × List Record) : answersFrom cfg m type want n p s.1 (given cfg m want s.2)=
    .ok (if (records m n p).length=n then given cfg m want ((records m n p).foldl (hear m type want) s).2
      else (given cfg m want ((records m n p).foldl (hear m type want) s).2).map fun f => (f.1,0)) := by
  induction n generalizing p s with
  | zero => rfl
  | succ n ih =>
    have hs : ([] : List Record).length≠n+1 := (Nat.succ_ne_zero n).symm
    rw [answersFrom]
    obtain ⟨e,he,-,-⟩ := nameEnd_spec
    cases e with
    | none =>
      rw [records,he,if_neg hs]
      rfl
    | some fixed =>
      let c : Record := ⟨p,fixed⟩
      rw [records_succ (c := c) m he rfl,he]
      show ite _ _ _=_
      by_cases hf : m.len<fixed+10
      · rw [if_pos hf,if_pos (Nat.lt_add_right _ hf : m.len < c.rdata+_),if_neg hs]
        rfl
      rw [if_neg hf,Message.rd16_ok (by omega),Message.rd16_ok (by omega),Message.rd32_ok (by omega),
        Message.rd16_ok (by omega)]
      show (if m.len < c.rdata+c.rdlen m then _ else _)=_
      by_cases hn : m.len < c.rdata+c.rdlen m
      · rw [if_pos hn,if_pos hn,if_neg hs]
        rfl
      rw [if_neg hn,if_neg hn,length_cons,foldl_cons]
      simp only [Nat.add_right_cancel_iff]
      rw [←ih]
      obtain ⟨same,hsm,-⟩ := ofInterest_spec
      show (ofInterest m (c.cls m) c.owner s.1 >>= _)=_
      rw [hear,hsm]
      cases same with
      | false => rfl
      | true =>
        show (if c.type m=type ∧ c.rdlen m=want then _ else _)=_
        rw [if_neg (not_not.2 rfl)]
        by_cases ha : c.type m=type ∧ c.rdlen m=want
        · rw [if_pos ha,if_pos ha,given_snoc]
          cases given cfg m want s.2 with
          | some f => rfl
          | none =>
            have hc : m.copy c.rdata want=.ok ((m.octets.drop c.rdata).padded want) := if_pos (by omega)
            show (m.copy c.rdata want >>= _)=_
            rw [hc]
            rfl
        rw [if_neg ha,if_neg ha]
        show (if c.type m=5 ∧ (given cfg m want s.2).isNone ∧ (m.octets.drop (c.fixed+8)).rd16≠0 then _ else _)=_
        have hl : (m.octets.drop (c.fixed+8)).rd16≠0 ↔ c.rdlen m≠0 := not_congr BitVec.toNat_eq
        simp only [given_isNone,hl]
        split_ifs <;> rfl

end Walk

/-- The address given is the data of a matching record. -/
theorem given_address {cfg : Config} {want : ℕ} {l : List Record} {f : Octets × BitVec 32} (h : given cfg m want l=some f) :
    ∃ c∈l,f.1=(m.octets.drop c.rdata).padded want := by
  induction l using reverseRecOn generalizing f with
  | nil => cases h
  | append_singleton l c ih =>
    rw [given_snoc] at h
    unfold give at h
    split at h
    · cases h
      exact ⟨c,by simp,rfl⟩
    · rename_i hl
      cases h
      obtain ⟨d,hd,hf⟩ := ih hl
      exact ⟨d,mem_append_left _ hd,hf⟩

/-- The records that match are of the class and type asked for, and the name leads to them. -/
theorem heard_given {type : BitVec 16} {want start total n p : ℕ} {s : ℕ × List Record} (hcount : rs.length+n=total)
    (hr : Section m start rs p) (hi : ∀ off,Alike m off s.1 → Leads m name rs off)
    (hg : ∀ c∈s.2,GivenBy m name start total type want ((m.octets.drop c.rdata).padded want)) :
    ∀ c∈((records m n p).foldl (hear m type want) s).2,
      GivenBy m name start total type want ((m.octets.drop c.rdata).padded want) := by
  induction n generalizing rs p s with
  | zero => exact hg
  | succ n ih =>
    obtain ⟨e,he,hen,-⟩ := nameEnd_spec
    cases e with
    | none =>
      rw [records,he]
      exact hg
    | some fixed =>
      let c : Record := ⟨p,fixed⟩
      rw [records_succ (c := c) m he rfl]
      split
      · exact hg
      have hrecords' : Section m start (rs++[c]) (c.rdata+c.rdlen m) := .snoc hr (hen fixed rfl) (by omega)
      have hinterest' : ∀ off,Alike m off s.1 → Leads m name (rs++[c]) off := fun off h => (hi off h).snoc c
      refine ih (by rw [length_append,length_singleton]; omega) hrecords' ?_ ?_
      all_goals
        unfold hear
        split
        · assumption
        rename_i hs
        obtain ⟨same,heq,hm⟩ := ofInterest_spec
        obtain ⟨hcl,hal⟩ := hm (Except.ok.inj (heq.symm.trans (not_not.1 hs)))
        have ho : Leads m name rs c.owner := hi c.owner hal
        split
      · exact hinterest'
      · split
        · rename_i hc
          exact fun off h => ho.follow hc.1 hcl h
        · exact hinterest'
      · rename_i ha
        simp only [mem_append,mem_singleton]
        rintro d (hd|rfl)
        · exact hg d hd
        · exact ⟨rs,c,_,hrecords',by omega,hcl,ha.1,ha.2,rfl,ho⟩
      · split <;> exact hg

end Records

section Questions

open DomainName StepRun Function

/-- A message echoes a question: its labels spell the question's name, and type and class agree. -/
structure Echoed (w : Work) (m : Message) (i : ℕ) : Prop where
  name : ∃ T,Reads (w.name i) 0 T ∧ Agrees m 127 0 12 T
  fields : ∃ e,EndsAt m.octets m.len 12 e ∧ e+4 ≤ m.len ∧ (m.octets.drop e).rd16=(w.query i).type ∧
    (m.octets.drop (e+2)).rd16=(w.query i).qclass

variable {i : ℕ}

theorem echoes_spec {w : Work} {m : Message} {T : List (BitVec 8)} (h : Reads (w.name i) 0 T) :
    ∃ b,echoes w m i=.ok b ∧ (b=true ↔ Echoed w m i) := by
  obtain ⟨same,hs,ha⟩ := nameEqText_spec (m := m) 12 h
  unfold echoes
  rw [hs]
  show ∃ b,ite _ _ _=_ ∧ _
  cases same with
  | false =>
    refine ⟨false,if_pos rfl,iff_of_false nofun ?_⟩
    rintro ⟨⟨T',hT',hag⟩,-⟩
    rw [hT'.unique h] at hag
    cases ha.2 hag
  | true =>
    rw [if_neg nofun]
    obtain ⟨ls,k,hls,hk,hw,-⟩ := ha.1 rfl
    obtain ⟨r,hr,he,hsm⟩ := nameEnd_spec
    obtain ⟨e,rfl⟩ := Option.isSome_iff_exists.1 (hsm ls k hls hw)
    have hat := he e rfl
    rw [hr]
    show ∃ b,ite _ _ _=_ ∧ _
    by_cases hl : m.len<e+4
    · refine ⟨false,if_pos hl,iff_of_false nofun ?_⟩
      rintro ⟨-,e',hat',hlen',-⟩
      cases hat.unique hat'
      omega
    rw [if_neg hl,Message.rd16_ok (by omega),Message.rd16_ok (by omega)]
    refine ⟨_,rfl,?_⟩
    rw [Bool.and_eq_true,beq_iff_eq,beq_iff_eq]
    constructor
    · exact fun hf => ⟨⟨T,h,ha.1 rfl⟩,e,hat,by omega,hf⟩
    · rintro ⟨-,e',hat',-,hf⟩
      cases hat.unique hat'
      exact hf

variable (cfg : Config)

/-- A message answers a question that waits for it. -/
structure Answers (w : Work) (a : InputArgs) (m : Message) (src : Octets) (i : ℕ) : Prop where
  addressed : addressed cfg w a src (m.octets.drop 0).rd16 i
  echoed : Echoed w m i

/-- Each question that is held asks about a dotted form. -/
def Named (w : Work) : Prop := ∀ i < cfg.dnsQueries,(w.query i).state≠.free → ∃ T,Dotted (w.name i) 0 T

variable {cfg} {w : Work} {a : InputArgs} {m : Message} {src : Octets}

theorem state_of_addressed {id : BitVec 16} (h : addressed cfg w a src id i=true) : (w.query i).state=.sent := by
  unfold addressed at h
  simp only [Bool.and_eq_true,decide_eq_true_eq] at h
  exact h.1.1.1

variable {n : ℕ}

theorem matchFrom_spec (hnm : Named cfg w) (a : InputArgs) (m : Message) (src : Octets) (hn : i+n ≤ cfg.dnsQueries) :
    ∃ r,matchFrom cfg w a m src (m.octets.drop 0).rd16 n i=.ok r ∧ ∀ j,r=some j ↔
      i≤j ∧ j < i+n ∧ Answers cfg w a m src j ∧ ∀ k,i≤k → k<j → ¬Answers cfg w a m src k := by
  induction n generalizing i with
  | zero => exact ⟨none,rfl,fun j => ⟨nofun,fun h => (by omega)⟩⟩
  | succ n ih =>
    obtain ⟨r,hr,hrs⟩ := ih (by omega : i+1+n ≤ cfg.dnsQueries)
    -- a question that is not answered is passed over
    have hp : ¬Answers cfg w a m src i → ∀ j,r=some j ↔
        i≤j ∧ j < i+(n+1) ∧ Answers cfg w a m src j ∧ ∀ k,i≤k → k<j → ¬Answers cfg w a m src k := by
      intro hnt j
      rw [hrs j]
      constructor
      · rintro ⟨hi,hj,han,hf⟩
        refine ⟨by omega,by omega,han,fun k hk hkj => ?_⟩
        rcases Nat.eq_or_lt_of_le hk with rfl|hlt
        · exact hnt
        · exact hf k hlt hkj
      · rintro ⟨hi,hj,han,hf⟩
        have hne : i≠j := fun heq => hnt (heq ▸ han)
        exact ⟨by omega,by omega,han,fun k hk => hf k (by omega)⟩
    rw [matchFrom]
    cases ha : addressed cfg w a src (m.octets.drop 0).rd16 i with
    | false =>
      exact ⟨r,hr,hp fun h => absurd (ha.symm.trans h.addressed) Bool.false_ne_true⟩
    | true =>
      obtain ⟨T,hT⟩ := hnm i (by omega) (by rw [state_of_addressed ha]; decide)
      obtain ⟨b,hb,he⟩ := echoes_spec (m := m) hT.reads
      rw [if_pos rfl,hb]
      show ∃ r,ite _ _ _=_ ∧ _
      cases b with
      | false =>
        exact ⟨r,hr,hp fun h => absurd (he.2 h.echoed) Bool.false_ne_true⟩
      | true =>
        refine ⟨some i,if_pos rfl,fun j => ?_⟩
        have han : Answers cfg w a m src i := ⟨ha,he.1 rfl⟩
        constructor
        · intro h
          cases h
          exact ⟨le_rfl,by omega,han,fun k hk hki => by omega⟩
        · rintro ⟨hi,-,-,hf⟩
          rcases Nat.eq_or_lt_of_le hi with rfl|hlt
          · rfl
          · exact absurd han (hf i le_rfl hlt)

/-- A message of two octets or more is matched to the first question it answers. -/
theorem matchQuery_spec (hn : Named cfg w) (a : InputArgs) (src : Octets) (hl : 1 < m.len) :
    ∃ r,matchQuery cfg w a m src=.ok r ∧ ∀ j,r=some j ↔
      j < cfg.dnsQueries ∧ Answers cfg w a m src j ∧ ∀ k<j,¬Answers cfg w a m src k := by
  obtain ⟨r,hr,hi⟩ := matchFrom_spec hn a m src (n := cfg.dnsQueries) (i := 0) (by omega)
  refine ⟨r,?_,fun j => ?_⟩
  · unfold matchQuery
    rw [Message.rd16_ok hl]
    exact hr
  · rw [hi j]
    simp

/-- The exchange a question is in goes on: it was sent and still is, with the same identity, port and server. -/
structure Continues (q q' : Query) : Prop where
  sent : q.state=.sent
  id : q'.id=q.id
  srcPort : q'.srcPort=q.srcPort
  server : q'.server=q.server

/-- The header of a response to one standard query, as `dns_take` tests it before it looks for the question. -/
structure Heard (m : Message) (flags : BitVec 16) : Prop where
  len : 17 ≤ m.len ∧ m.len ≤ 512
  word : m.rd16 2=.ok flags
  response : flags &&& 0x8000≠0
  opcode : (flags &&& 0x7800) >>> 11=0
  qdcount : m.rd16 4=.ok 1

/-- A response that is neither cut nor an error, whose answers give an address. -/
structure Gives (cfg : Config) (m : Message) (type : BitVec 16) (addr : Octets) : Prop where
  header : ∃ flags,Heard m flags ∧ flags &&& 0x0200=0 ∧ (flags &&& 0x000F).setWidth 8=(0 : BitVec 8)
  answers : ∃ e ancount ttl,nameEnd m 12=.ok (some e) ∧ m.rd16 6=.ok ancount ∧
    answersRead cfg m (e+4) ancount type=.ok (some (addr,ttl))

/-- What taking a response leaves: other questions, names and servers as they were, and an address from the answers. -/
structure Took (cfg : Config) (m : Message) (w w' : Work) (i : ℕ) : Prop where
  others : ∀ j≠i,w'.query j=w.query j
  names : ∀ j < cfg.dnsQueries,w'.name j=w.name j
  servers : w'.server=w.server
  held : (w'.query i).state≠.free
  sent : (w'.query i).state=.sent → Continues (w.query i) (w'.query i)
  address : (w'.query i).state=.done → Gives cfg m (w.query i).type w'.io.addr

theorem advance_state {cfg : Config} {w : Work} {tries : BitVec 8} {q : Query} :
    (advance cfg w tries q).state=.new ∨ (advance cfg w tries q).state=.failed := by
  unfold advance
  extract_lets next wrapped retries
  split
  · exact .inr rfl
  · exact .inl rfl

theorem advance_type {cfg : Config} {w : Work} {tries : BitVec 8} {q : Query} : (advance cfg w tries q).type=q.type := by
  unfold advance
  extract_lets next wrapped retries
  split <;> rfl

variable {j : ℕ}

theorem cacheAnswer_name {cfg : Config} {w : Work} {i : ℕ} {now : BitVec 32} {e : Entry} (hj : j < cfg.dnsQueries) :
    (cacheAnswer cfg w i now e).name j=w.name j := update_of_ne (by omega) _ _

theorem answersRead_spec (cfg : Config) (m : Message) (start : ℕ) (ancount type : BitVec 16)
    (name : List (List (BitVec 8))) (hn : ∀ off,Alike m off 12 → Leads m name [] off) :
    ∃ r,answersRead cfg m start ancount type=.ok r ∧
      ∀ f,r=some f → GivenBy m name start ancount.toNat type (if type=28 then 16 else 4) f.1 := by
  refine ⟨_,answersFrom_records cfg m type _ ancount.toNat start (12,[]),fun f hf => ?_⟩
  obtain ⟨g,hg,hfs⟩ : ∃ g,given cfg m _ _=some g ∧ f.1=g.1 := by
    split at hf
    · exact ⟨f,hf,rfl⟩
    · obtain ⟨g,hg,rfl⟩ := Option.map_eq_some_iff.1 hf
      exact ⟨g,hg,rfl⟩
  obtain ⟨c,hc,ha⟩ := given_address hg
  rw [hfs,ha]
  exact heard_given (Nat.zero_add _) .nil hn (List.forall_mem_nil _) c hc

theorem answersRead_ok (cfg : Config) (m : Message) (start : ℕ) (ancount type : BitVec 16) :
    ∃ r,answersRead cfg m start ancount type=.ok r :=
  ⟨_,answersFrom_records cfg m type _ ancount.toNat start (12,[])⟩

variable {w' : Work}

theorem Took.of_update (q : Query) (hq : w'.query=update w.query i q)
    (hn : ∀ j < cfg.dnsQueries,w'.name j=w.name j) (hs : w'.server=w.server) (hheld : q.state≠.free)
    (hsent : q.state=.sent → Continues (w.query i) q)
    (haddress : q.state=.done → Gives cfg m (w.query i).type w'.io.addr) : Took cfg m w w' i := by
  have hi : w'.query i=q := by rw [hq,update_self]
  constructor
  · intro j hj
    rw [hq,update_of_ne hj]
  · exact hn
  · exact hs
  · rwa [hi]
  · rwa [hi]
  · rwa [hi]

theorem takeError_spec {cfg : Config} {w : Work} {tries : BitVec 8} {now : BitVec 32} {i : ℕ} {q : Query} :
    (∃ q',(takeError cfg w tries now i q).query=update w.query i q' ∧ q'.type=q.type ∧ (q'.state=.new ∨ q'.state=.failed)) ∧
      (∀ j < cfg.dnsQueries,(takeError cfg w tries now i q).name j=w.name j) ∧
      (takeError cfg w tries now i q).server=w.server := by
  unfold takeError
  extract_lets v
  split
  · exact ⟨⟨{q with state := .failed},rfl,rfl,.inr rfl⟩,fun j hj => cacheAnswer_name hj,rfl⟩
  · exact ⟨⟨advance cfg v tries q,rfl,advance_type,advance_state⟩,fun _ _ => rfl,rfl⟩

variable {e : ℕ}

theorem takeAnswers_spec {cfg : Config} {w : Work} {m : Message} {ancount : BitVec 16} {now : BitVec 32} {i : ℕ} {q : Query}
    (hn : nameEnd m 12=.ok (some e)) : ∃ w' q',takeAnswers cfg w m ancount now i q=.ok w' ∧
      w'.query=update w.query i q' ∧ (∀ j < cfg.dnsQueries,w'.name j=w.name j) ∧ w'.server=w.server ∧ q'.type=q.type ∧
      (q'.state=.failed ∨ q'.state=.done ∧ ∃ ttl,answersRead cfg m (e+4) ancount q.type=.ok (some (w'.io.addr,ttl))) := by
  obtain ⟨r,hr⟩ := answersRead_ok cfg m (e+4) ancount q.type
  unfold takeAnswers
  rw [hn]
  show ∃ w' q',(answersRead cfg m (e+4) ancount q.type >>= _)=_ ∧ _
  rw [hr]
  cases r with
  | none => exact ⟨_,{q with state := .failed},rfl,rfl,fun _ _ => rfl,rfl,rfl,.inl rfl⟩
  | some f =>
    obtain ⟨addr,ttl⟩ := f
    show ∃ w' q',ite _ _ _=_ ∧ _
    by_cases ht : ttl≠0
    · rw [if_pos ht]
      refine ⟨_,{q with state := .done},rfl,rfl,fun j hj => ?_,rfl,rfl,.inr ⟨rfl,ttl,rfl⟩⟩
      exact cacheAnswer_name hj
    · rw [if_neg ht]
      exact ⟨_,{q with state := .done},rfl,rfl,fun _ _ => rfl,rfl,rfl,.inr ⟨rfl,ttl,rfl⟩⟩

theorem takeMatched_spec {cfg : Config} {w : Work} {m : Message} {flags : BitVec 16} {tries : BitVec 8} {now : BitVec 32}
    (hh : Heard m flags) (hnm : nameEnd m 12=.ok (some e)) (hsn : (w.query i).state=.sent) :
    ∃ w',takeMatched cfg w m flags tries now i=.ok w' ∧ Took cfg m w w' i ∧ Query.type∘w'.query=Query.type∘w.query := by
  have ht : ∀ {q q' : Query},q'.type=(w.query i).type → Query.type∘update (update w.query i q) i q'=Query.type∘w.query := by
    intro q q' h
    rw [update_idem,comp_update,h]
    exact update_eq_self i _
  have hc := Message.rd16_ok (Nat.lt_of_lt_of_le (by decide) hh.len.1 : 6+1 < m.len)
  unfold takeMatched
  rw [hc]
  show ∃ w',ite _ _ _=_ ∧ _
  by_cases htc : flags &&& 0x0200≠0
  · rw [if_pos htc]
    refine ⟨_,rfl,.of_update (w.query i) (update_eq_self i _).symm (fun _ _ => rfl) rfl ?_ ?_ ?_,rfl⟩
    · rw [hsn]
      decide
    · exact fun _ => ⟨hsn,rfl,rfl,rfl⟩
    · rw [hsn]
      exact nofun
  rw [if_neg htc]
  split
  · refine ⟨_,rfl,?_⟩
    obtain ⟨⟨q',hq,hty,hs⟩,hn,hsr⟩ := takeError_spec
    refine ⟨.of_update q' (hq.trans (update_idem _ _ _)) hn hsr ?_ ?_ ?_,(congrArg _ hq).trans (ht hty)⟩
    all_goals rcases hs with h|h <;> rw [h]
    · decide
    · decide
    all_goals exact nofun
  rename_i hrc
  obtain ⟨w',q',hw,hq,hn,hsr,hty,hs⟩ := takeAnswers_spec hnm
  refine ⟨w',hw,.of_update q' (hq.trans (update_idem _ _ _)) hn hsr ?_ ?_ ?_,
    (congrArg _ hq).trans (ht hty)⟩
  · rcases hs with h|⟨h,-⟩ <;> rw [h] <;> decide
  · rcases hs with h|⟨h,-⟩ <;> rw [h] <;> exact nofun
  · rcases hs with h|⟨h,ttl,ha⟩
    · rw [h]
      exact nofun
    · exact fun _ => ⟨⟨flags,hh,not_not.1 htc,not_not.1 hrc⟩,e,_,ttl,hnm,hc,ha⟩

/-- No question, name or server changed. -/
structure Idle (w w' : Work) : Prop where
  query : w'.query=w.query
  name : w'.name=w.name
  server : w'.server=w.server

theorem answers_mapIo {f : Io → Io} : Answers cfg (w.mapIo f) a m src i ↔ Answers cfg w a m src i :=
  ⟨fun h => ⟨h.addressed,h.echoed.name,h.echoed.fields⟩,fun h => ⟨h.addressed,h.echoed.name,h.echoed.fields⟩⟩

/-- A message is taken for the first question it answers, or for none. -/
def TakenFor (cfg : Config) (w w' : Work) (a : InputArgs) : Prop :=
  ∃ octets src i,a.msg=some octets ∧ a.src=some src ∧ i < cfg.dnsQueries ∧ Answers cfg w a ⟨octets,a.len⟩ src i ∧
    (∀ k < i,¬Answers cfg w a ⟨octets,a.len⟩ src k) ∧ Took cfg ⟨octets,a.len⟩ w w' i

theorem take_spec (hn : Named cfg w) {a : InputArgs} {tries : BitVec 8} {now : BitVec 32} :
    ∃ w',take cfg w a tries now=.ok w' ∧ (Idle w w' ∨ TakenFor cfg w w' a) ∧ Query.type∘w'.query=Query.type∘w.query := by
  unfold take
  extract_lets u
  have hid : Idle w u := ⟨rfl,rfl,rfl⟩
  split
  · rename_i octets src hms hsr
    by_cases hl : a.len<17 ∨ 512<a.len
    · rw [if_pos hl]
      exact ⟨u,rfl,.inl hid,rfl⟩
    rw [if_neg hl]
    extract_lets m
    have hm : 17 ≤ m.len ∧ m.len ≤ 512 := by
      show 17≤a.len ∧ a.len≤512
      omega
    rw [Message.rd16_ok (by omega : 2+1 < m.len)]
    show ∃ w',ite _ _ _=_ ∧ _
    split
    · exact ⟨u,rfl,.inl hid,rfl⟩
    rename_i hqr
    split
    · exact ⟨u,rfl,.inl hid,rfl⟩
    rename_i hop
    have hqd := Message.rd16_ok (by omega : 4+1 < m.len)
    rw [hqd]
    show ∃ w',ite _ _ _=_ ∧ _
    split
    · exact ⟨u,rfl,.inl hid,rfl⟩
    rename_i hone
    rw [not_not.1 hone] at hqd
    have hh : Heard m _ := ⟨hm,Message.rd16_ok (by omega : 2+1 < m.len),hqr,not_not.1 hop,hqd⟩
    obtain ⟨r,hr,hf⟩ := matchQuery_spec (w := u) hn a src (by omega : 1 < m.len)
    rw [hr]
    cases r with
    | none => exact ⟨u,rfl,.inl hid,rfl⟩
    | some i =>
      obtain ⟨hi,ha,hb⟩ := (hf i).1 rfl
      obtain ⟨T,-,ls,k,hls,-,hwr,-⟩ := ha.echoed.name
      obtain ⟨e,he,-,hs⟩ := nameEnd_spec
      obtain ⟨d,rfl⟩ := Option.isSome_iff_exists.1 (hs ls k hls hwr)
      obtain ⟨w',hw,ht,hty⟩ := takeMatched_spec hh he (state_of_addressed ha.addressed)
      refine ⟨w',hw,.inr ⟨octets,src,i,hms,hsr,hi,(answers_mapIo).1 ha,fun k hk h => ?_,?_⟩,hty⟩
      · exact hb k hk ((answers_mapIo).2 h)
      · exact ⟨ht.others,ht.names,ht.servers,ht.held,ht.sent,ht.address⟩
  · exact ⟨u,rfl,.inl hid,rfl⟩

/-- A message changes nothing the calls remember, or is taken for the question it answers. -/
theorem input_spec (hn : Named cfg w) {a : InputArgs} {now : BitVec 32} :
    Idle w (input cfg w a now) ∨ TakenFor cfg w (input cfg w a now) a := by
  unfold input
  split
  · exact .inl ⟨rfl,rfl,rfl⟩
  rename_i s _
  obtain ⟨w',hw,h⟩ := take_spec hn
  rw [hw]
  exact h.1

theorem input_type (hn : Named cfg w) {a : InputArgs} {now : BitVec 32} :
    Query.type∘(input cfg w a now).query=Query.type∘w.query := by
  unfold input
  split
  · rfl
  rename_i s _
  obtain ⟨w',hw,h⟩ := take_spec hn
  rw [hw]
  exact h.2

/-- What a call other than `build` does to the slot of a question. -/
inductive Slot (w w' : Work) (i : ℕ) : Prop
  | freed (h : (w'.query i).state=.free)
  | asked {T : List (BitVec 8)} (hstate : (w'.query i).state=.new) (hname : Dotted (w'.name i) 0 T)
  | moved (hheld : (w.query i).state≠.free) (hname : w'.name i=w.name i)
      (hsent : (w'.query i).state=.sent → Continues (w.query i) (w'.query i))

/-- What a call that neither asks nor sends does to it: the slot is freed, or the question is still about its name. -/
inductive Keeps (w w' : Work) (i : ℕ) : Prop
  | freed (h : (w'.query i).state=.free)
  | moved (hheld : (w.query i).state≠.free) (hname : w'.name i=w.name i) (htype : (w'.query i).type=(w.query i).type)
      (hsent : (w'.query i).state=.sent → Continues (w.query i) (w'.query i))

theorem Keeps.slot (h : Keeps w w' i) : Slot w w' i := by
  cases h with
  | freed h => exact .freed h
  | moved hh hn _ hs => exact .moved hh hn hs

theorem Keeps.of_eq (hq : w'.query i=w.query i) (hn : w'.name i=w.name i) : Keeps w w' i := by
  by_cases hf : (w.query i).state=.free
  · exact .freed (hq ▸ hf)
  refine .moved hf hn (by rw [hq]) fun h => ?_
  rw [hq] at h ⊢
  exact ⟨h,rfl,rfl,rfl⟩

theorem Slot.of_eq (hq : w'.query i=w.query i) (hn : w'.name i=w.name i) : Slot w w' i := (Keeps.of_eq hq hn).slot

theorem input_keeps (hn : Named cfg w) {a : InputArgs} {now : BitVec 32} (hj : j < cfg.dnsQueries) :
    Keeps w (input cfg w a now) j := by
  rcases input_spec hn with h|⟨_,_,i,_,_,_,ha,_,ht⟩
  · exact .of_eq (congrFun h.query j) (congrFun h.name j)
  by_cases hji : j=i
  · subst hji
    have hs := state_of_addressed ha.addressed
    exact .moved (by rw [hs]; decide) (ht.names j hj) (congrFun (input_type hn) j) ht.sent
  · exact .of_eq (ht.others j hji) (ht.names j hj)

theorem queryFree_keeps {w : Work} {i j : ℕ} {io : Io} : Keeps w {queryFree w i with io} j := by
  by_cases hji : j=i
  · subst hji
    exact .freed (by simp [queryFree,Work.nameStore,Work.setQuery,Query.zero])
  · exact .of_eq (update_of_ne hji _ _) (update_of_ne hji _ _)

theorem occupy_slot {w : Work} {a : QueryArgs} {name : Octets} {k : ℕ} (hl : textWireLen name=some (k,n)) {i j : ℕ} {io : Io} :
    Slot w {occupy cfg w a name n i with io} j := by
  by_cases hji : j=i
  · subst hji
    obtain ⟨T,hT,rfl,-⟩ := textWireLen_spec hl
    have hs : (occupy cfg w a name T.length j).name j=name.padded T.length := update_self ..
    have hq : (occupy cfg w a name T.length j).query j=fresh cfg w a := update_self ..
    refine .asked (T := T) ?_ ⟨?_,hT.ne,hT.label_ne⟩
    · rw [hq]
      rfl
    rw [hs]
    exact hT.reads.padded (by omega)
  · exact .of_eq (update_of_ne hji _ _) (update_of_ne hji _ _)

/-- Asking changes the report only, or puts the question in a slot. -/
theorem query_cases {w : Work} {a : QueryArgs} : (∃ io,query cfg w a={w with io}) ∨
    ∃ name wire n i io,a.name=some name ∧ textWireLen name=some (wire,n) ∧
      querySlot cfg w (queryFind cfg w name a.type)=some i ∧ query cfg w a={occupy cfg w a name n i with io} := by
  unfold query queryRegister
  extract_lets u
  split
  · exact .inl ⟨_,rfl⟩
  split
  · exact .inl ⟨_,rfl⟩
  split
  · exact .inl ⟨_,rfl⟩
  split
  · exact .inl ⟨_,rfl⟩
  rename_i name hn
  split
  · exact .inl ⟨_,rfl⟩
  rename_i wire n hl
  extract_lets found
  split
  · exact .inl ⟨_,rfl⟩
  split
  · exact .inl ⟨_,rfl⟩
  · rename_i i hs
    exact .inr ⟨name,wire,n,i,_,hn,hl,hs,rfl⟩

/-- A lookup changes the report only, or frees the slot of a question that was given up. -/
theorem lookup_cases {w : Work} {a : LookupArgs} {now : BitVec 32} : (∃ io,lookup cfg w a now={w with io}) ∨
    ∃ i io,lookup cfg w a now={queryFree w i with io} := by
  unfold lookup lookupCached
  extract_lets u
  split
  · exact .inl ⟨_,rfl⟩
  split
  · exact .inl ⟨_,rfl⟩
  split
  · exact .inl ⟨_,rfl⟩
  extract_lets pending v
  split
  · exact .inr ⟨_,_,rfl⟩
  split
  · exact .inl ⟨_,rfl⟩
  · extract_lets e x
    split <;> exact .inl ⟨_,rfl⟩

theorem sweep_keeps {w : Work} {tries : BitVec 8} {now : BitVec 32} (hj : j < cfg.dnsQueries) :
    Keeps w (sweep cfg w tries now) j := by
  have hn : (sweep cfg w tries now).name j=w.name j := by
    have hb : ¬cfg.dnsQueries≤j := by omega
    simp [sweep,Work.report,Work.mapIo,hb]
  have hq : (sweep cfg w tries now).query j=sweepQuery cfg w tries now (w.query j) := if_pos hj
  by_cases hw : (w.query j).state≠.sent ∨ reached now (w.query j).deadlineMs=false
  · exact .of_eq (hq.trans (if_pos hw)) hn
  have hsn : (w.query j).state=.sent := by
    by_contra h
    exact hw (.inl h)
  have hm := hq.trans (if_neg hw)
  refine .moved (by rw [hsn]; decide) hn (hm ▸ advance_type) fun h => ?_
  rw [hm] at h
  rcases advance_state with hs|hs <;> rw [hs] at h <;> cases h

/-- What a `build` that puts a question on the wire leaves and reports. -/
structure Built (w w' : Work) (i : ℕ) : Prop where
  status : w'.io.status=.ok
  new : (w.query i).state=.new
  others : ∀ j≠i,w'.query j=w.query j
  name : w'.name=w.name
  server : w'.server=w.server
  id : (w'.query i).id=w'.io.xid
  srcPort : (w'.query i).srcPort=w'.io.srcPort
  dst : w'.io.dst=(w.server (w'.query i).server).addr
  dstPort : w'.io.dstPort=(w.server (w'.query i).server).port
  ipv6 : w'.io.ipv6=(w.server (w'.query i).server).ipv6

/-- A `build` that fails moves no question but to another server, and says so. -/
structure Unbuilt (w w' : Work) : Prop where
  status : w'.io.status≠.ok
  slot : ∀ j,Slot w w' j
  server : w'.server=w.server

/-- A `build` changes the report only, or moves its question to the next server, and sends it if it can be written. -/
theorem build_cases {w : Work} {a : BuildArgs} {now : BitVec 32} : (∃ io,build cfg w a now={w with io} ∧ io.status≠.ok) ∨
    ∃ si q,serverUsedFrom cfg w (w.query a.query).server=some si ∧ a.query < cfg.dnsQueries ∧ (w.query a.query).state=.new ∧
      q={w.query a.query with server := si} ∧
      ((∃ io,build cfg w a now={w with query := update w.query a.query q,io} ∧ io.status≠.ok) ∨
      ∃ io,build cfg w a now={w with query := update w.query a.query (launched cfg (w.server si) a now q),io} ∧
        io.status=.ok ∧ io.dst=(w.server si).addr ∧ io.dstPort=(w.server si).port ∧ io.ipv6=(w.server si).ipv6 ∧
        io.xid=q.id ∧ io.srcPort=q.srcPort) := by
  unfold build buildQuery
  extract_lets u q
  split
  · exact .inl ⟨_,rfl,nofun⟩
  split
  · exact .inl ⟨_,rfl,nofun⟩
  split
  · exact .inl ⟨_,rfl,nofun⟩
  rename_i hlt
  split
  · exact .inl ⟨_,rfl,nofun⟩
  rename_i hs
  split
  · exact .inl ⟨_,rfl,nofun⟩
  rename_i si hsi
  extract_lets q' v
  refine .inr ⟨si,q',hsi,not_le.1 hlt,not_not.1 hs,rfl,?_⟩
  split
  · exact .inl ⟨_,rfl,nofun⟩
  extract_lets need
  split
  · exact .inl ⟨_,rfl,nofun⟩
  · right
    rw [←update_idem q']
    exact ⟨_,rfl,rfl,rfl,rfl,rfl,rfl,rfl⟩

theorem build_spec (w : Work) (a : BuildArgs) (now : BitVec 32) :
    Unbuilt w (build cfg w a now) ∨ Built w (build cfg w a now) a.query := by
  rcases build_cases with ⟨io,h,hio⟩|⟨si,q,-,-,hn,rfl,⟨io,h,hio⟩|⟨io,h,hok,hd,hp,hipv6,hid,hsr⟩⟩ <;> rw [h]
  · exact .inl ⟨hio,fun j => .of_eq rfl rfl,rfl⟩
  · refine .inl ⟨hio,fun j => ?_,rfl⟩
    by_cases hj : j=a.query
    · subst hj
      refine .moved (by rw [hn]; decide) rfl fun hs => ?_
      change (update w.query _ (_ : Query) _).state=_ at hs
      rw [update_self] at hs
      exact absurd (hn.symm.trans hs) (by decide)
    · exact .of_eq (update_of_ne hj _ _) rfl
  · refine .inr ⟨hok,hn,fun j hj => update_of_ne hj _ _,rfl,rfl,?_,?_,?_,?_,?_⟩
    all_goals simp only [update_self]
    · exact hid.symm
    · exact hsr.symm
    · exact hd
    · exact hp
    · exact hipv6

theorem step_keeps (hn : Named cfg w) {c : Call} (hq : ∀ a,c≠.query a) (hb : ∀ a now,c≠.build a now)
    (hj : j < cfg.dnsQueries) : Keeps w (step cfg w c) j := by
  cases c with
  | bind settings =>
    dsimp only [step,bind]
    split
    · exact .of_eq rfl rfl
    split <;> exact .of_eq rfl rfl
  | setServer a =>
    dsimp only [step,setServer]
    split
    · split <;> exact .of_eq rfl rfl
    · exact .of_eq rfl rfl
  | query a => exact absurd rfl (hq a)
  | lookup a now =>
    show Keeps w (lookup cfg w a now) j
    rcases lookup_cases with ⟨io,h⟩|⟨i,io,h⟩ <;> rw [h]
    · exact .of_eq rfl rfl
    · exact queryFree_keeps
  | build a now => exact absurd rfl (hb a now)
  | input a now => exact input_keeps hn hj
  | tick now =>
    dsimp only [step,tick]
    split
    · exact .of_eq rfl rfl
    · exact sweep_keeps hj
  | cancel i =>
    dsimp only [step,cancel]
    split
    · exact .of_eq rfl rfl
    split
    · exact .of_eq rfl rfl
    · exact queryFree_keeps
  | flush =>
    dsimp only [step,flush]
    split
    · exact .of_eq rfl rfl
    · exact .of_eq rfl (if_neg (by omega))

/-- Every call but `build` does to a slot what `Slot` allows. -/
theorem step_slot (hn : Named cfg w) {c : Call} (hc : ∀ a now,c≠.build a now) (hj : j < cfg.dnsQueries) :
    Slot w (step cfg w c) j := by
  by_cases hq : ∃ a,c=.query a
  · obtain ⟨a,rfl⟩ := hq
    show Slot w (query cfg w a) j
    rcases query_cases with ⟨io,h⟩|⟨name,wire,n,i,io,-,hl,-,h⟩ <;> rw [h]
    · exact .of_eq rfl rfl
    · exact occupy_slot hl
  · exact (step_keeps hn (fun a ha => hq ⟨a,ha⟩) hc hj).slot

theorem Slot.dotted (h : Slot w w' j) (hh : (w'.query j).state≠.free)
    (hnm : (w.query j).state≠.free → ∃ T,Dotted (w.name j) 0 T) : ∃ T,Dotted (w'.name j) 0 T := by
  cases h with
  | freed hf => exact absurd hf hh
  | asked _ hn => exact ⟨_,hn⟩
  | moved hheld' hn _ =>
    rw [hn]
    exact hnm hheld'

theorem step_named (c : Call) (hn : Named cfg w) : Named cfg (step cfg w c) := by
  intro j hj hh
  by_cases hc : ∃ a now,c=.build a now
  · obtain ⟨a,now,rfl⟩ := hc
    rcases build_spec w a now with h|h
    · exact (h.slot j).dotted hh (hn j hj)
    show ∃ T,Dotted ((build cfg w a now).name j) 0 T
    rw [h.name]
    refine hn j hj fun hf => ?_
    by_cases hja : j=a.query
    · rw [hja,h.new] at hf
      cases hf
    · have hs := h.others j hja
      exact hh ((congrArg Query.state hs).trans hf)
  · exact (step_slot hn (fun a now heq => hc ⟨a,now,heq⟩) hj).dotted hh (hn j hj)

theorem run_named (cfg : Config) (calls : List Call) : Named cfg (run (step cfg) clear calls) :=
  run_always (fun _ c h => step_named c h) fun _ _ h => absurd rfl h

end Questions

end IdemIp.Dns
