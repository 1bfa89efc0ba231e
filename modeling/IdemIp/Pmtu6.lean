import IdemIp.IpHeaders
import IdemIp.StepRun
import Mathlib.Logic.Function.Basic

/-!
# Ages of IPv6 path MTU estimates, `pmtu6.c`

A Packet Too Big message that lowers an estimate stamps its path, and a stamp old enough
asks once for a larger MTU. A message that lowers nothing leaves the stamp as it is.
-/

namespace IdemIp.Pmtu6

open Function StepRun

/-- Rows of the table and the age that asks for a probe, with the assertion made about it. -/
structure Sizes where
  paths : ℕ
  probeMs : ℕ
  floor : 300000≤probeMs

/-- The clock of a path, `Pmtu6Stamp`. -/
structure Stamp where
  stampMs : BitVec 32
  dst : Octets
  used : Bool

/-- The stamps. -/
abbrev Work := ℕ → Stamp

/-- The path of a quoted packet, from a header on, `pmtu6_path`. -/
def pathFrom (pkt : Octets) (len : ℕ) : ℕ → ℕ → BitVec 8 → Octets
  | 0,_,_ => pkt.drop 24
  | n+1,off,nh =>
    let ext := if nh=44 then 8 else Ip6.extLen (pkt.drop off)
    if !Ip6.nhIsExt nh ∨ len<off+8 ∨ len<off+ext then pkt.drop 24
    else if nh=43 ∧ pkt (off+3)≠0 ∧ 24≤ext then pkt.drop (off+ext-16)
    else pathFrom pkt len n (off+ext) (pkt off)

def path (pkt : Octets) (len : ℕ) : Octets := pathFrom pkt len len 40 (pkt 6)

/-- A message and what the caller holds for its path. -/
structure TooBigArgs where
  msg : Octets
  len : ℕ
  (held linkMtu : BitVec 16)

variable (z : Sizes) (w : Work)

/-- A row is in use for a path. -/
def holds (dst : Octets) (i : ℕ) : Bool := (w i).used && (w i).dst.bytesEq dst 16

/-- The row of a path, `pmtu6_find`. -/
def find (dst : Octets) : Option ℕ := (List.range z.paths).find? (holds w dst)

/-- The row whose clock has run longest, the last of several. -/
def oldest (nowMs : BitVec 32) : ℕ×BitVec 32 :=
  (List.range z.paths).foldl (fun o i => if o.2≤nowMs-(w i).stampMs then (i,nowMs-(w i).stampMs) else o) (0,0)

/-- The row of a path, else the first free one, else the oldest, `pmtu6_take`. -/
def take (dst : Octets) (nowMs : BitVec 32) : ℕ :=
  (find z w dst).getD (((List.range z.paths).find? fun i => !(w i).used).getD (oldest z w nowMs).1)

/-- The path of a message that is no error. -/
def accepted (a : TooBigArgs) : Option Octets :=
  if a.len<48 ∨ a.msg 0≠2 ∨ Ip6.version (a.msg.drop 8)≠6 ∨ (a.msg.drop 4).rd32<1280 then none
  else some (path (a.msg.drop 8) (a.len-8))

/-- The estimate a message is measured by: the one held, or the MTU of the link. -/
def estimate (a : TooBigArgs) : ℕ := if a.held=0 then a.linkMtu.toNat else a.held.toNat

/-- The estimate a message leaves is below the one before, or the first. -/
def lowers (a : TooBigArgs) : Bool := estimate a==0 || min (a.msg.drop 4).rd32.toNat 0xFFFF<estimate a

/-- A message, `idemip_pmtu6_too_big`: the stamps, and path, MTU and row reported. -/
def tooBig (a : TooBigArgs) (nowMs : BitVec 32) : Work×Option (Octets×ℕ×Option ℕ) :=
  match accepted a with
  | none => (w,none)
  | some dst =>
    if !lowers a then (w,some (dst,estimate a,none))
    else
      let i := take z w dst nowMs
      (update w i ⟨nowMs,dst,true⟩,some (dst,min (a.msg.drop 4).rd32.toNat 0xFFFF,some i))

/-- The stamps without a row's. -/
def drop (i : ℕ) : Work := update w i {w i with used := false}

/-- A path that is due, `idemip_pmtu6_tick`: the stamps, and row, path and MTU reported. -/
def tick (linkMtu : BitVec 16) (nowMs : BitVec 32) : Work×Status×Option (ℕ×Octets×BitVec 16) :=
  if linkMtu<1280 then (w,.err,none)
  else match (List.range z.paths).find? fun i => (w i).used && z.probeMs≤(nowMs-(w i).stampMs).toNat with
    | none => (w,.busy,none)
    | some i => (drop w i,.ok,some (i,(w i).dst,linkMtu))

/-- `idemip_pmtu6_forget`. -/
def forget (dst : Octets) : Work×Option ℕ :=
  match find z w dst with
  | none => (w,none)
  | some i => (drop w i,some i)

/-- The stamps after `idemip_pmtu6_clear`. -/
def clear : Work := fun _ => ⟨0,.zero,false⟩

inductive Call
  | clear | tooBig (a : TooBigArgs) | tick (linkMtu : BitVec 16) | forget (dst : Octets)

/-- The stamps and the messages accepted so far, with their times and paths. -/
structure Run where
  work : Work
  log : List (ℕ×Octets)

/-- A call at a time. -/
def step (s : Run) (e : ℕ×Call) : Run :=
  match e.2 with
  | .clear => ⟨clear,s.log⟩
  | .tooBig a => ⟨(tooBig z s.work a (.ofNat 32 e.1)).1,s.log++((accepted a).map (e.1,·)).toList⟩
  | .tick linkMtu => ⟨(tick z s.work linkMtu (.ofNat 32 e.1)).1,s.log⟩
  | .forget dst => ⟨(forget z s.work dst).1,s.log⟩

/-- The clock is not behind a message accepted before, and a message accepted lowers an estimate. -/
def Lowering (s : Run) (e : ℕ×Call) : Prop :=
  (∀ p∈s.log,p.1≤e.1) ∧ ∀ a,e.2=.tooBig a → (accepted a).isSome → lowers a

/-- A path has one row, stamped at the last message for it. -/
structure Dated (s : Run) : Prop where
  row : ∀ i<z.paths,(s.work i).used →
    ∃ q∈s.log,(s.work i).stampMs=.ofNat 32 q.1 ∧ ∀ p∈s.log,(s.work i).dst.bytesEq p.2 16 → p.1≤q.1
  once : ∀ i<z.paths,∀ j<z.paths,∀ x,holds s.work x i → holds s.work x j → i=j

variable {z}

section Dated

variable {s : Run} (h : Dated z s) (dst : Octets)

include h

theorem take_row {j : ℕ} (hj : j<z.paths) (hd : holds s.work dst j) (nowMs : BitVec 32) : take z s.work dst nowMs=j := by
  obtain ⟨i,hi⟩ : ∃ i,find z s.work dst=some i := by
    rw [←Option.isSome_iff_exists,find,List.find?_isSome]
    exact ⟨j,List.mem_range.2 hj,hd⟩
  have hm := List.mem_range.1 (List.mem_of_find?_eq_some hi)
  rw [take,hi]
  exact h.once i hm j hj dst (List.find?_some hi) hd

/-- A row may be given up, or be stamped at the last message if it was no other row's path. -/
theorem put_dated (i : ℕ) (x : Stamp) (new : List (ℕ×Octets)) (hn : ∀ p∈new,x.used ∧ p.2=x.dst)
    (hx : x.used → (∃ q∈s.log++new,x.stampMs=.ofNat 32 q.1 ∧ ∀ p∈s.log++new,p.1≤q.1) ∧
      ∀ j<z.paths,j≠i → ¬holds s.work x.dst j) : Dated z ⟨update s.work i x,s.log++new⟩ := by
  have ho : ∀ {y j},j≠i → holds (update s.work i x) y j → holds s.work y j := by
    intro y j hj hy
    rw [holds,update_of_ne hj] at hy
    exact hy
  have hi : ∀ {y j},j<z.paths → j≠i → holds s.work y j → ¬holds (update s.work i x) y i := by
    intro y j hj hne hu hv
    simp only [holds,update_self,Bool.and_eq_true,Octets.bytesEq_iff] at hu hv
    refine (hx hv.1).2 j hj hne (Bool.and_eq_true_iff.2 ⟨hu.1,Octets.bytesEq_iff.2 fun k hk => ?_⟩)
    exact (hu.2 k hk).trans (hv.2 k hk).symm
  constructor
  · intro j hj hu
    by_cases he : j=i
    · subst he
      dsimp only at hu ⊢
      rw [update_self] at hu ⊢
      obtain ⟨q,hq,hs,hl⟩ := (hx hu).1
      exact ⟨q,hq,hs,fun p hp _ => hl p hp⟩
    · dsimp only at hu ⊢
      rw [update_of_ne he] at hu ⊢
      obtain ⟨q,hq,hs,hl⟩ := h.row j hj hu
      refine ⟨q,List.mem_append_left _ hq,hs,fun p hp hd => ?_⟩
      rcases List.mem_append.1 hp with hp | hp
      · exact hl p hp hd
      · obtain ⟨hxu,hpx⟩ := hn p hp
        rw [hpx] at hd
        exact absurd (Bool.and_eq_true_iff.2 ⟨hu,hd⟩) ((hx hxu).2 j hj he)
  · intro j hj k hk y hu hv
    by_cases he : j=i <;> by_cases hf : k=i
    · exact he.trans hf.symm
    · exact absurd (he ▸ hu) (hi hk hf (ho hf hv))
    · exact absurd (hf ▸ hv) (hi hj he (ho he hu))
    · exact h.once j hj k hk y (ho he hu) (ho hf hv)

theorem drop_dated (i : ℕ) : Dated z ⟨drop s.work i,s.log⟩ := by
  have hd := put_dated h i {s.work i with used := false} [] nofun nofun
  rwa [List.append_nil] at hd

theorem stamp_dated {t : ℕ} (ht : ∀ p∈s.log,p.1≤t) :
    Dated z ⟨update s.work (take z s.work dst (.ofNat 32 t)) ⟨.ofNat 32 t,dst,true⟩,s.log++[(t,dst)]⟩ := by
  refine put_dated h _ _ _ (by simp) fun _ => ⟨⟨(t,dst),by simp,rfl,?_⟩,?_⟩
  · simpa [or_imp,forall_and] using ht
  · exact fun j hj hne hd => hne (take_row h dst hj hd _).symm

end Dated

theorem step_dated (s : Run) (e : ℕ×Call) (h : Dated z s) (hl : Lowering s e) : Dated z (step z s e) := by
  obtain ⟨t,_ | a | linkMtu | dst⟩ := e
  · exact ⟨nofun,nofun⟩
  · have hlow := hl.2 a rfl
    dsimp only [step,tooBig]
    cases ha : accepted a with
    | none => simpa using h
    | some dst =>
      rw [hlow (by rw [ha]; rfl)]
      exact stamp_dated h dst hl.1
  · dsimp only [step,tick]
    split
    · exact h
    · split
      · exact h
      · exact drop_dated h _
  · dsimp only [step,forget]
    split
    · exact h
    · exact drop_dated h _

/-- Where accepted messages lower estimates, a probe comes five minutes after the last one for its path. -/
theorem tick_probe_late {es : List (ℕ×Call)} {s : Run} (hs : run (step z) ⟨clear,[]⟩ es=s)
    (hl : Along (step z) Lowering ⟨clear,[]⟩ es) {t i : ℕ} (ht : ∀ p∈s.log,p.1≤t) {linkMtu mtu : BitVec 16} {dst : Octets}
    (hr : (tick z s.work linkMtu (.ofNat 32 t)).2=(.ok,some (i,dst,mtu))) : ∀ p∈s.log,dst.bytesEq p.2 16 → p.1+300000≤t := by
  have h : Dated z s := hs ▸ run_invariant step_dated ⟨nofun,nofun⟩ hl
  unfold tick at hr
  split at hr
  · cases hr
  · split at hr
    · cases hr
    · rename_i hj
      cases hr
      have hd := List.find?_some hj
      rw [Bool.and_eq_true,decide_eq_true_eq] at hd
      obtain ⟨q,hq,he,hp⟩ := h.row i (List.mem_range.1 (List.mem_of_find?_eq_some hj)) hd.1
      intro p hm hb
      have hle := hp p hm hb
      have hqt := ht q hq
      have hf := z.floor
      have ha := hd.2
      rw [he,BitVec.toNat_sub,BitVec.toNat_ofNat,BitVec.toNat_ofNat] at ha
      omega

/-- A message of MTU 1400 for a path with an estimate. -/
def reported (held : BitVec 16) : TooBigArgs := ⟨.ofList [2,0,0,0,0,0,5,0x78,0x60],48,held,1500⟩

theorem tick_probe_late_once : let z : Sizes := ⟨4,600000,by decide⟩
    let s := run (step z) ⟨clear,[]⟩ [(0,.tooBig (reported 0))]
    (tick z s.work 1500 600000).2.1=.ok ∧ ∀ p∈s.log,(s.work 0).dst.bytesEq p.2 16 → p.1+300000≤600000 :=
  ⟨by decide,@tick_probe_late _ [(0,.tooBig (reported 0))] _ rfl ⟨⟨nofun,fun a h => by cases h; decide⟩,trivial⟩ 600000 _ (by decide) 1500 _ _ rfl⟩

/-- A second message lowers nothing, and a probe comes a millisecond after it. -/
theorem tick_probe_early : let z : Sizes := ⟨4,600000,by decide⟩
    let s := run (step z) ⟨clear,[]⟩ [(0,.tooBig (reported 0)),(599999,.tooBig (reported 1400))]
    (tick z s.work 1500 600000).2.1=.ok ∧ s.log.any fun p => p.1==599999 && (s.work 0).dst.bytesEq p.2 16 := by
  decide

end IdemIp.Pmtu6
