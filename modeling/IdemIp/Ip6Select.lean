import IdemIp.Config
import IdemIp.Checksum
import IdemIp.StepRun

/-!
# Default address selection, `ip6_select.c`

Candidates, destinations and policy rows fill their tables from the front and only
clear empties them, so a table is the list of its used entries. A null operand and
a borrow that was never cleared are refused and left out. A sorted list stays what a
fresh sort would give as long as no row is set after the sort.
-/

namespace IdemIp.Ip6Select

section Choice

/-- Table sizes of a build, with the assertions made about them. -/
structure Sizes where
  (sources dests policies : ℕ)
  defaultsFit : 9≤policies
  narrow : sources<none8 ∧ dests<none8 ∧ policies<none8

/-- A candidate, `Ip6SelectSource`. -/
structure Source where
  addr : Octets
  zone : BitVec 32
  netif : BitVec 8
  (deprecated temporary home careOf nextHop : Bool)

/-- A destination, `Ip6SelectDest`, with the index of its source. -/
structure Dest where
  addr : Octets
  zone : BitVec 32
  netif : BitVec 8
  source : Option ℕ
  (unreachable encapsulated : Bool)
deriving Inhabited

/-- A policy row, `Ip6SelectPolicy`. -/
structure Policy where
  addr : Octets
  zone : BitVec 32
  (prefixLen precedence label : BitVec 8)

/-- The tables, the order of the destinations and whether it is current. -/
structure Work where
  sources : List Source
  dests : List Dest
  policies : List Policy
  order : List ℕ
  sorted : Bool

def defaultRow (addr : List (BitVec 8)) (prefixLen precedence label : BitVec 8) : Policy :=
  ⟨.ofList addr,0,prefixLen,precedence,label⟩

/-- The rows clear loads, `ip6_select_default_policy`. -/
def defaultPolicy : List Policy :=
  [defaultRow (List.replicate 15 0++[1]) 128 50 0,defaultRow [] 0 40 1,
    defaultRow (List.replicate 10 0++[0xFF,0xFF]) 96 35 4,defaultRow [0x20,0x02] 16 30 2,
    defaultRow [0x20,0x01] 32 5 5,defaultRow [0xFC] 7 3 13,defaultRow [] 96 1 3,
    defaultRow [0xFE,0xC0] 10 1 11,defaultRow [0x3F,0xFE] 16 1 12]

/-- The borrow `clear` leaves. -/
def cleared : Work := ⟨[],[],defaultPolicy,[],false⟩

/-- Scope of an address of a known form, `idemip_ip6_addr_scope_of`. -/
def addrScopeOf (addr : Octets) : Ip6AddrType → ℕ
  | .multicast => if addr 1 &&& 0x0F=0x0F then 0xE else (addr 1 &&& 0x0F).toNat
  | .linkLocal | .loopback => 2
  | .siteLocal => 5
  | .unspecified => 0
  | _ => 0xE

def isV4 (addr : Octets) : Bool := ip6AddrType addr==.v4Mapped

/-- Scope with the IPv4 prefixes that are link-local, `ip6_select_scope`. -/
def scope (addr : Octets) : ℕ :=
  if isV4 addr then if addr 12=169 ∧ addr 13=254 ∨ addr 12=127 then 2 else 0xE
  else addrScopeOf addr (ip6AddrType addr)

/-- Zero bits an octet starts with. -/
def leadingZeros : ℕ → BitVec 8 → ℕ
  | 0,_ => 0
  | n+1,x => if x &&& 0x80=0 then leadingZeros n (x<<<1)+1 else 0

def commonFrom (s d : Octets) : ℕ → ℕ → ℕ
  | 0,_ => 0
  | n+1,i => if s i=d i then commonFrom s d n (i+1)+8 else leadingZeros 8 (s i ^^^ d i)

/-- Leading bits in common, 64 at most, `ip6_select_common_prefix`. -/
def commonPrefix (s d : Octets) : ℕ := min (commonFrom s d 16 0) 64

/-- Equality of the leading bits, `idemip_ip6_addr_prefix_eq`. -/
def prefixEq (a b : Octets) (len : BitVec 8) : Bool := a.prefixEq b len

section Policies

variable (rows : List Policy) (addr : Octets) (zone : BitVec 32)

/-- A row applies to an address of a zone. -/
def applies (p : Policy) : Bool := (p.zone==0 || p.zone==zone) && prefixEq addr p.addr p.prefixLen

def findStep (best : Option (Policy×ℕ)) (row : Policy×ℕ) : Option (Policy×ℕ) :=
  if applies addr zone row.1 && best.all fun b => b.1.prefixLen < row.1.prefixLen then some row else best

/-- The first of the longest rows that apply and its index, `ip6_select_policy_find`. -/
def policyFind : Option (Policy×ℕ) := rows.zipIdx.foldl (findStep addr zone) none

/-- `ip6_select_precedence`. -/
def precedence : BitVec 8 := ((policyFind rows addr zone).map (·.1.precedence)).getD 0

/-- `ip6_select_label`. -/
def label : BitVec 8 := ((policyFind rows addr zone).map (·.1.label)).getD 0xFF

end Policies

/-- Equal addresses of one zone, `ip6_select_same_addr`. -/
def sameAddr (a : Octets) (aZone : BitVec 32) (b : Octets) (bZone : BitVec 32) : Bool :=
  a.bytesEq b 16 && (scope a==0xE || aZone==bZone || aZone==0 || bZone==0)

/-- Whether a candidate may serve a destination, `ip6_select_candidate_ok`. -/
def candidateOk (src : Source) (d : Dest) : Bool :=
  isV4 src.addr==isV4 d.addr && match ip6AddrType d.addr with
    | .multicast | .linkLocal => src.netif==d.netif
    | .siteLocal => d.zone==0 || src.zone==0 || src.zone==d.zone
    | _ => true

/-- The side for which something holds, if it holds for one only. -/
def prefer (a b : Bool) : ℤ := if a=b then 0 else if a then 1 else -1

/-- The side with the greater value. -/
def greater (a b : ℕ) : ℤ := if a=b then 0 else if b<a then 1 else -1

/-- Home and care-of addresses, rule 4 of both comparisons. -/
def homeRule (sa sb : Source) : ℤ :=
  let both := fun s : Source => s.home && s.careOf
  if both sa≠both sb then prefer (both sa) (both sb)
  else if both sa then 0
  else if (sa.home && !sa.careOf) && (sb.careOf && !sb.home) then 1
  else if (sb.home && !sb.careOf) && (sa.careOf && !sa.home) then -1
  else 0

/-- The verdict of the first rule that decides, and its number. -/
def firstRule : List (ℕ×ℤ) → ℤ×ℕ
  | [] => (0,0)
  | (rule,v)::l => if v≠0 then (v,rule) else firstRule l

/-- Rule 2 of the source comparison, over the scopes of both sides and the destination. -/
def scopeRule (as bs ds : ℕ) : ℤ :=
  if as<bs then if as<ds then -1 else 1 else if bs<as then if bs<ds then 1 else -1 else 0

/-- Two candidates for a destination, `ip6_select_cmp_source`. -/
def cmpSource (rows : List Policy) (sa sb : Source) (d : Dest) : ℤ×ℕ :=
  let labelled := fun s : Source => label rows s.addr s.zone==label rows d.addr d.zone
  firstRule [(1,prefer (sameAddr sa.addr sa.zone d.addr d.zone) (sameAddr sb.addr sb.zone d.addr d.zone)),
    (2,scopeRule (scope sa.addr) (scope sb.addr) (scope d.addr)),(3,prefer (!sa.deprecated) (!sb.deprecated)),
    (4,homeRule sa sb),(5,prefer (sa.netif==d.netif) (sb.netif==d.netif)),(55,prefer sa.nextHop sb.nextHop),
    (6,prefer (labelled sa) (labelled sb)),(7,prefer sa.temporary sb.temporary),
    (8,greater (commonPrefix sa.addr d.addr) (commonPrefix sb.addr d.addr))]

def bestStep (rows : List Policy) (d : Dest) (best : Option (Source×ℕ)×ℕ) (row : Source×ℕ) : Option (Source×ℕ)×ℕ :=
  if !candidateOk row.1 d then best else match best.1 with
    | none => (some row,best.2)
    | some b =>
      let order := cmpSource rows row.1 b.1 d
      (some (if 0<order.1 then row else b),if order.1≠0 then order.2 else best.2)

/-- The candidate `source_select` reports and the rule, `ip6_select_best_source`. -/
def bestSource (w : Work) (d : Dest) : Option (Source×ℕ)×ℕ := w.sources.zipIdx.foldl (bestStep w.policies d) (none,0)

def Work.sourceOf (w : Work) (d : Dest) : Option Source := d.source.bind (w.sources[·]?)

/-- Two destinations by their place in the list, `ip6_select_cmp_dest`. -/
def cmpDest (w : Work) (ia ib : ℕ) : ℤ×ℕ :=
  let da := w.dests.getD ia default
  let db := w.dests.getD ib default
  let good := fun d : Dest => !(d.unreachable || d.source.isNone)
  let matched := fun (d : Dest) (s : Source) => scope d.addr==scope s.addr
  let labelled := fun (d : Dest) (s : Source) => label w.policies s.addr s.zone==label w.policies d.addr d.zone
  let sourced := fun rules : Source → Source → List (ℕ×ℤ) => match w.sourceOf da,w.sourceOf db with
    | some sa,some sb => rules sa sb
    | _,_ => []
  firstRule ((1,prefer (good da) (good db))::
    (sourced fun sa sb => [(2,prefer (matched da sa) (matched db sb)),(3,prefer (!sa.deprecated) (!sb.deprecated)),
      (4,homeRule sa sb),(5,prefer (labelled da sa) (labelled db sb))])++
    [(6,greater (precedence w.policies da.addr da.zone).toNat (precedence w.policies db.addr db.zone).toNat),
      (7,prefer (!da.encapsulated) (!db.encapsulated)),(8,greater (scope db.addr) (scope da.addr))]++
    (sourced fun sa sb => if isV4 da.addr=isV4 db.addr then
      [(9,greater (commonPrefix sa.addr da.addr) (commonPrefix sb.addr db.addr))] else [])++
    [(10,if ia < ib then 1 else -1)])

/-- A row that `policy_set` overwrites. -/
def sameKey (a p : Policy) : Bool := p.prefixLen==a.prefixLen && p.zone==a.zone && p.addr.bytesEq a.addr 16

variable (z : Sizes) (w : Work)

/-- Overwrite a row or fill the first free one; the index reported is `none` on ERR. -/
def policySet (a : Policy) : Work×Option ℕ :=
  let slot := w.policies.findIdx (sameKey a)
  if 128<a.prefixLen ∨ z.policies ≤ slot then (w,none)
  else ({w with policies := w.policies.take slot++a::w.policies.drop (slot+1)},some slot)

/-- Row and index that `policy_lookup` reports. -/
def policyLookup (addr : Octets) (zone : BitVec 32) : Option (Policy×ℕ) := policyFind w.policies addr zone

def sourceAdd (s : Source) : Work×Option ℕ :=
  if z.sources≤w.sources.length ∨ ip6AddrType s.addr=.multicast ∨ ip6AddrType s.addr=.unspecified then (w,none)
  else ({w with sources := w.sources++[s],sorted := false},some w.sources.length)

def destAdd (d : Dest) : Work×Option ℕ :=
  if z.dests≤w.dests.length then (w,none)
  else ({w with dests := w.dests++[{d with source := none}],sorted := false},some w.dests.length)

/-- The place that goes next to `i`, as the inner loop of `dest_sort` finds it. -/
def bestPlace (order : List ℕ) (i : ℕ) : ℕ :=
  (List.range' (i+1) (w.dests.length-(i+1))).foldl
    (fun best j => if 0<(cmpDest w (order.getD j 0) (order.getD best 0)).1 then j else best) i

def swap (order : List ℕ) (i j : ℕ) : List ℕ := (order.set i (order.getD j 0)).set j (order.getD i 0)

/-- Each destination with the source found for it. -/
def withSources : Work := {w with dests := w.dests.map fun d => {d with source := (bestSource w d).1.map (·.2)}}

def destSort : Work :=
  let n := w.dests.length
  {withSources w with
    order := (List.range n).foldl (fun order i => swap order i (bestPlace (withSources w) order i)) (List.range n)
    sorted := true}

/-- Index, address, zone and interface of the destination at a place, and address and zone of its source. -/
def destAt (place : ℕ) : Option (ℕ×Octets×BitVec 32×BitVec 8×Option (Octets×BitVec 32)) :=
  if !w.sorted ∨ w.dests.length≤place then none
  else
    let which := w.order.getD place 0
    let d := w.dests.getD which default
    some (which,d.addr,d.zone,d.netif,(w.sourceOf d).map fun s => (s.addr,s.zone))

end Choice

section Lists

open StepRun

theorem bytesEq_left {a b c : Octets} {n : ℕ} (h : a.bytesEq b n) : a.bytesEq c n=b.bytesEq c n := by
  simp only [Octets.bytesEq,List.all_eq_true,List.mem_range,beq_iff_eq] at h
  rw [Bool.eq_iff_iff]
  simp only [Octets.bytesEq,List.all_eq_true,List.mem_range]
  exact forall₂_congr fun i hi => by rw [h i hi]

/-- Addresses that agree on leading bits agree there with the same addresses. -/
theorem prefixEq_left {a b c : Octets} {len : BitVec 8} (h : prefixEq a b len) : prefixEq a c len=prefixEq b c len := by
  simp only [prefixEq,Octets.prefixEq,Bool.and_eq_true,Bool.or_eq_true,beq_iff_eq] at h
  dsimp only [prefixEq,Octets.prefixEq]
  rw [bytesEq_left h.1]
  rcases h.2 with hb | hb
  · rw [hb]
    rfl
  · have hm : ∀ x y m u : BitVec 8,(x ^^^ y) &&& m=0 → (x ^^^ u) &&& m=(y ^^^ u) &&& m := by
      intro x y m u h
      refine BitVec.eq_of_getLsbD_eq fun i hi => ?_
      have hxy : ((x ^^^ y) &&& m).getLsbD i=false := by simp [h]
      simp only [BitVec.getLsbD_and,BitVec.getLsbD_xor] at hxy ⊢
      grind
    rw [hm _ _ _ _ hb]

section Found

variable {addr : Octets} {zone : BitVec 32}

theorem findStep_kept {b : Policy×ℕ} (l : List (Policy×ℕ))
    (h : ∀ r∈l,applies addr zone r.1 → r.1.prefixLen≤b.1.prefixLen) : l.foldl (findStep addr zone) (some b)=some b := by
  induction l with
  | nil => rfl
  | cons r l ih =>
    have hr : findStep addr zone (some b) r=some b := by
      refine if_neg ?_
      simp only [Option.all_some,Bool.and_eq_true,decide_eq_true_eq,not_and,BitVec.not_lt]
      exact h r List.mem_cons_self
    rw [List.foldl_cons,hr]
    exact ih fun x hx => h x (List.mem_cons_of_mem r hx)

/-- A row applies and has a length. -/
def appliesAt (addr : Octets) (zone : BitVec 32) (len : BitVec 8) (p : Policy) : Bool := applies addr zone p && p.prefixLen==len

/-- The walk ends at the first row of the greatest length. -/
theorem findStep_first {len : BitVec 8} (l : List (Policy×ℕ)) (best : Option (Policy×ℕ)) {r : Policy×ℕ}
    (hb : ∀ b∈best,b.1.prefixLen<len) (h : ∀ r∈l,applies addr zone r.1 → r.1.prefixLen≤len)
    (hr : l.find? (fun r => appliesAt addr zone len r.1)=some r) : l.foldl (findStep addr zone) best=some r := by
  induction l generalizing best with
  | nil => cases hr
  | cons x l ih =>
    have hl : ∀ r∈l,applies addr zone r.1 → r.1.prefixLen≤len := fun r hr => h r (List.mem_cons_of_mem x hr)
    rw [List.foldl_cons]
    by_cases hx : appliesAt addr zone len x.1
    · rw [List.find?_cons,hx] at hr
      cases hr
      obtain ⟨ha,hln⟩ := Bool.and_eq_true_iff.1 hx
      have hs : findStep addr zone best r=some r := by
        refine if_pos ?_
        rw [ha,Bool.true_and,beq_iff_eq.1 hln]
        cases best with
        | none => rfl
        | some b => exact decide_eq_true (hb b rfl)
      rw [hs]
      exact findStep_kept l fun y hy => beq_iff_eq.1 hln ▸ hl y hy
    · rw [List.find?_cons,Bool.eq_false_iff.2 hx] at hr
      refine ih _ ?_ hl hr
      intro b hb'
      dsimp only [findStep] at hb'
      split at hb'
      · next hs =>
        cases hb'
        have ha := (Bool.and_eq_true_iff.1 hs).1
        have hle := h x List.mem_cons_self ha
        have hne : x.1.prefixLen≠len := fun he => hx (by rw [appliesAt,ha,he,beq_self_eq_true,Bool.and_true])
        bv_omega
      · exact hb b hb'

/-- The lookup finds the first row of the greatest length. -/
theorem policyFind_first {rows : List Policy} {len : BitVec 8} {p : Policy} (h : ∀ p∈rows,applies addr zone p → p.prefixLen≤len)
    (hp : rows.find? (appliesAt addr zone len)=some p) : (policyFind rows addr zone).map (·.1)=some p := by
  rw [←List.zipIdx_map_fst 0 rows,List.find?_map,Option.map_eq_some_iff] at hp
  obtain ⟨r,hr,rfl⟩ := hp
  have hrw : ∀ r∈rows.zipIdx,applies addr zone r.1 → r.1.prefixLen≤len :=
    fun r hr => h r.1 (List.zipIdx_map_fst 0 rows ▸ List.mem_map_of_mem hr)
  rw [policyFind,findStep_first rows.zipIdx none nofun hrw hr]
  rfl

end Found

/-- A row of the length set that applies where the set one does. -/
def rival (a p : Policy) : Bool := (p.zone==0 || p.zone==a.zone) && prefixEq a.addr p.addr p.prefixLen && p.prefixLen==a.prefixLen

theorem appliesAt_eq_rival {a : Policy} {addr : Octets} (h : prefixEq addr a.addr a.prefixLen) (p : Policy) :
    appliesAt addr a.zone a.prefixLen p=rival a p := by
  by_cases hp : p.prefixLen=a.prefixLen
  · rw [appliesAt,applies,rival,hp,prefixEq_left h]
  · rw [appliesAt,rival,beq_false_of_ne hp,Bool.and_false,Bool.and_false]

/-- The first row ahead of the place of a row to set that rivals it. -/
def ahead (w : Work) (a : Policy) : Option Policy := (w.policies.takeWhile (!sameKey a ·)).find? (rival a)

/-- Precedence and label of a lookup. -/
def answer (w : Work) (addr : Octets) (zone : BitVec 32) : Option (BitVec 8×BitVec 8) :=
  (policyLookup w addr zone).map fun r => (r.1.precedence,r.1.label)

/-- A row just set answers for its prefix, where no longer row does, exactly when the first rival ahead has the same
values. -/
theorem policySet_found_iff (z : Sizes) (w : Work) (a : Policy) (hs : (policySet z w a).2.isSome) (addr : Octets)
    (hin : prefixEq addr a.addr a.prefixLen=true)
    (hl : ∀ p∈(policySet z w a).1.policies,applies addr a.zone p=true → p.prefixLen≤a.prefixLen) :
    answer (policySet z w a).1 addr a.zone=some (a.precedence,a.label) ↔
      ∀ p∈ahead w a,p.precedence=a.precedence ∧ p.label=a.label := by
  have hp : w.policies.takeWhile (!sameKey a ·)=w.policies.take (w.policies.findIdx (sameKey a)) := by
    rw [List.takeWhile_eq_take_findIdx_not]
    simp only [Bool.not_not]
  have hr : (policySet z w a).1.policies=w.policies.takeWhile (!sameKey a ·)++a::w.policies.drop (w.policies.findIdx (sameKey a)+1) := by
    dsimp only [policySet] at hs ⊢
    split at hs
    · cases hs
    · next hok => rw [if_neg hok,hp]
  have ha : rival a a=true := by
    rw [←appliesAt_eq_rival hin]
    simp [appliesAt,applies,hin]
  -- what the lookup finds: the first rival ahead of the place, or the row itself
  have hfn : (policySet z w a).1.policies.find? (appliesAt addr a.zone a.prefixLen)=some ((ahead w a).getD a) := by
    rw [funext (appliesAt_eq_rival hin),hr,List.find?_append,List.find?_cons,ha,ahead]
    cases (w.policies.takeWhile (!sameKey a ·)).find? (rival a) <;> rfl
  obtain ⟨r,hf,he⟩ := Option.map_eq_some_iff.1 (policyFind_first hl hfn)
  rw [answer,policyLookup,hf,Option.map_some,he]
  cases ahead w a <;> simp

/-- The sizes of the default build. -/
def Sizes.ofDefault : Sizes := ⟨8,8,16,by decide,by decide⟩

theorem policySet_found_fresh :
    answer (policySet .ofDefault cleared (defaultRow [0x26] 16 60 1)).1 (.ofList [0x26,0,1]) 0=some (60,1) :=
  (policySet_found_iff .ofDefault cleared (defaultRow [0x26] 16 60 1) (by decide) (.ofList [0x26,0,1]) (by decide) (by decide)).2
    (by decide)

/-- A row for every address of a zone never answers: the row for every address of any zone stands before it. -/
theorem policySet_shadowed : let a : Policy := ⟨.zero,5,0,7,7⟩
    let w := policySet .ofDefault cleared a
    w.2=some 9 ∧ prefixEq (.ofList [0x26]) a.addr a.prefixLen=true ∧
      (∀ p∈w.1.policies,applies (.ofList [0x26]) 5 p=true → p.prefixLen≤a.prefixLen) ∧
      answer w.1 (.ofList [0x26]) 5=some (40,1) := by
  decide

/-- A call; those that only read are one. -/
inductive Call
  | clear | policySet (a : Policy) | sourceAdd (s : Source) | destAdd (d : Dest) | destSort | read

def step (z : Sizes) (w : Work) : Call → Work
  | .clear => cleared
  | .policySet a => (policySet z w a).1
  | .sourceAdd s => (sourceAdd z w s).1
  | .destAdd d => (destAdd z w d).1
  | .destSort => destSort w
  | .read => w

/-- What a sort reads. -/
def inputs (w : Work) : List Source×List Dest×List Policy :=
  (w.sources,w.dests.map fun d => {d with source := none},w.policies)

/-- A row is set only while no order is current. -/
def SetsUnsorted (w : Work) (c : Call) : Prop := ∀ a,c=.policySet a → w.sorted=false

theorem destSort_destSort (w : Work) : destSort (destSort w)=destSort w := by
  have hd : (withSources (destSort w)).dests=(withSources w).dests := by
    simp only [withSources,destSort,List.map_map]
    rfl
  have hw : withSources (destSort w)=destSort w := congrArg (fun dests => {destSort w with dests}) hd
  have hl : (destSort w).dests.length=w.dests.length := List.length_map ..
  change ({withSources (destSort w) with
    order := (List.range (destSort w).dests.length).foldl
      (fun order i => swap order i (bestPlace (withSources (destSort w)) order i)) (List.range (destSort w).dests.length)
    sorted := true} : Work)=_
  rw [hw,hl]
  rfl

section Runs

variable {z : Sizes} {w : Work} {c : Call}

/-- A call that sets no row under a current order changes no input or leaves no order current. -/
theorem step_inputs (hc : SetsUnsorted w c) : (step z w c).sorted=false ∨ inputs (step z w c)=inputs w ∧ (c=.destSort ∨ step z w c=w) := by
  cases c with
  | clear => exact .inl rfl
  | policySet a =>
    left
    dsimp only [step,policySet]
    split <;> exact hc a rfl
  | sourceAdd s =>
    dsimp only [step,sourceAdd]
    split
    · exact .inr ⟨rfl,.inr rfl⟩
    · exact .inl rfl
  | destAdd d =>
    dsimp only [step,destAdd]
    split
    · exact .inr ⟨rfl,.inr rfl⟩
    · exact .inl rfl
  | destSort =>
    refine .inr ⟨?_,.inl rfl⟩
    simp only [inputs,step,destSort,withSources,List.map_map]
    rfl
  | read => exact .inr ⟨rfl,.inr rfl⟩

/-- A current order is the one a sort gives. -/
def Current (w : Work) : Prop := w.sorted → destSort w=w

theorem step_current (z : Sizes) (w : Work) (c : Call) (h : Current w) (hc : SetsUnsorted w c) : Current (step z w c) := by
  intro hs
  obtain hf | ⟨-,rfl | he⟩ := step_inputs (z := z) hc
  · rw [hf] at hs
    cases hs
  · exact destSort_destSort w
  · rw [he] at hs ⊢
    exact h hs

/-- No call but a sort makes an order current. -/
theorem run_unsorted (hs : w.sorted=false) {cs : List Call} (hc : .destSort∉cs) : (run (step z) w cs).sorted=false := by
  induction cs generalizing w with
  | nil => exact hs
  | cons c cs ih =>
    refine ih ?_ fun h => hc (List.mem_cons_of_mem c h)
    obtain hf | ⟨-,rfl | he⟩ := step_inputs (z := z) (w := w) (c := c) fun _ _ => hs
    · exact hf
    · exact (hc List.mem_cons_self).elim
    · rw [he]
      exact hs

theorem destAt_unsorted (hs : w.sorted=false) {place : ℕ} : destAt w place=none := by
  rw [destAt,if_pos (by simp [hs])]

/-- Where rows are set only while no order is current, a sorted list reads as a fresh sort, and a change to what a
sort reads has every place refused until the next. -/
theorem run_fresh (z : Sizes) (cs : List Call) (h : Along (step z) SetsUnsorted cleared cs) (place : ℕ) :
    let w := run (step z) cleared cs
    (destAt w place≠none → destAt w place=destAt (destSort w) place) ∧
      ∀ c,SetsUnsorted w c → inputs (step z w c)≠inputs w → ∀ ds,.destSort∉ds → destAt (run (step z) (step z w c) ds) place=none := by
  intro w
  constructor
  · intro hat
    have hcr : Current w := run_invariant (step_current z) nofun h
    have hs : w.sorted=true := by
      by_contra hs
      exact hat (destAt_unsorted (Bool.eq_false_iff.2 hs))
    rw [hcr hs]
  · intro c hc hne ds hds
    obtain hf | ⟨he,-⟩ := step_inputs (z := z) hc
    · exact destAt_unsorted (run_unsorted hf hds)
    · exact (hne he).elim

theorem bestPlace_lt (order : List ℕ) {i : ℕ} (hi : i < w.dests.length) : bestPlace w order i < w.dests.length := by
  refine List.foldlRecOn (motive := (· < w.dests.length)) _ _ hi fun best hb j hj => ?_
  rw [List.mem_range'_1] at hj
  split_ifs
  · omega
  · exact hb

theorem swap_perm {order : List ℕ} {i j : ℕ} (hi : i < order.length) (hj : j < order.length) : (swap order i j).Perm order := by
  simpa [swap,hi,hj] using List.set_set_perm hi hj

theorem destSort_perm (w : Work) : (destSort w).order.Perm (List.range w.dests.length) := by
  refine List.foldlRecOn (motive := fun o : List ℕ => o.Perm (List.range w.dests.length)) _ _ (.refl _) fun order ho i hi => ?_
  have hn : (withSources w).dests.length=w.dests.length := by simp [withSources]
  have hl : order.length=w.dests.length := by simp [ho.length_eq]
  rw [List.mem_range,←hn] at hi
  have hb := bestPlace_lt order hi
  exact (swap_perm (by omega) (by omega)).trans ho

/-- The order of a sorted list names every destination once. -/
def Ordered (w : Work) : Prop := w.sorted → w.order.Perm (List.range w.dests.length)

theorem step_ordered (z : Sizes) (w : Work) (c : Call) (h : Ordered w) : Ordered (step z w c) := by
  cases c with
  | clear => nofun
  | policySet a =>
    dsimp only [step,policySet]
    split_ifs <;> exact h
  | sourceAdd s =>
    dsimp only [step,sourceAdd]
    split_ifs
    · exact h
    · nofun
  | destAdd d =>
    dsimp only [step,destAdd]
    split_ifs
    · exact h
    · nofun
  | destSort =>
    intro _
    show (destSort w).order.Perm (List.range (withSources w).dests.length)
    rw [withSources,List.length_map]
    exact destSort_perm w
  | read => exact h

/-- Whatever was called, the places that can be read name each destination once. -/
theorem run_listed_once (z : Sizes) (cs : List Call) : let w := run (step z) cleared cs
    ((List.range w.dests.length).filterMap fun place => (destAt w place).map (·.1)).Perm
      (if w.sorted then List.range w.dests.length else []) := by
  intro w
  split_ifs with hs
  · have hw : w.order.Perm (List.range w.dests.length) := run_always (step_ordered z) nofun hs
    have ho : ((List.range w.dests.length).filterMap fun place => (destAt w place).map (·.1))=w.order := by
      rw [List.filterMap_congr (g := fun place => some (w.order.getD place 0)),List.filterMap_eq_map']
      · refine List.ext_getElem (by simp [hw.length_eq]) fun i hi hj => ?_
        simp [hj]
      · intro place hp
        simp [destAt,hs,List.mem_range.1 hp]
    rw [ho]
    exact hw
  · simp [destAt,hs]

end Runs

/-- A higher precedence for the second destination below. -/
def raised : Call := .policySet (defaultRow [0x27] 16 60 1)

/-- One source and two destinations, the first nearer to it. -/
def listed : List Call :=
  [.sourceAdd ⟨.ofList [0x26],0,0,false,false,false,false,false⟩,.destAdd ⟨.ofList [0x26,1],0,0,none,false,false⟩,
    .destAdd ⟨.ofList [0x27],0,0,none,false,false⟩]

theorem run_fresh_sorted : let w := run (step .ofDefault) cleared (listed++[raised,.destSort])
    (destAt w 0).map (·.1)=some 1 ∧ destAt w 0=destAt (destSort w) 0 := by
  have h : (destAt (run (step .ofDefault) cleared (listed++[raised,.destSort])) 0).map (·.1)=some 1 := by
    decide +kernel
  have ha : Along (step .ofDefault) SetsUnsorted cleared (listed++[raised,.destSort]) :=
    ⟨nofun,nofun,nofun,fun _ _ => rfl,nofun,trivial⟩
  refine ⟨h,(run_fresh .ofDefault _ ha 0).1 fun hn => ?_⟩
  rw [hn] at h
  cases h

/-- A row set after the sort: the place read is the old one, and a fresh sort puts the other destination there. -/
theorem policySet_stale : let w := run (step .ofDefault) cleared (listed++[.destSort,raised])
    (destAt w 0).map (·.1)=some 0 ∧ (destAt (destSort w) 0).map (·.1)=some 1 := by
  decide +kernel

end Lists

end IdemIp.Ip6Select
