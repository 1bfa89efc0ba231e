import Mathlib.Algebra.Ring.Nat
import Mathlib.Data.List.Basic

/-!
# Domain names, as text and on the wire

A name is a list of labels. Its text puts a dot between two labels, and may end in
one more. Its encoding puts the length in front of each label and may go on at an
earlier offset, RFC 1035 sec 4.1.4. A text agrees with labels of known lengths only
where none of them holds a dot.
-/

namespace IdemIp.DomainName

open List

section Text

variable {α : Type*} (dot : α) (fold : α → α)

/-- Two names agree label by label, up to `fold`. -/
def Same (ls ms : List (List α)) : Prop := ls.map (List.map fold)=ms.map (List.map fold)

/-- A text agrees with the labels when each is read off it at the label's own length. -/
def Spells : List (List α) → List α → Prop
  | [],t => t=[] ∨ t=[dot]
  | l::ls,t => ∃ u r,t=u++r ∧ u.map fold=l.map fold ∧ (r=[] ∧ Spells ls [] ∨ ∃ rest,r=dot::rest ∧ Spells ls rest)

variable {dot fold}

theorem Same.refl (ls : List (List α)) : Same fold ls ls := rfl

theorem Same.trans {ls ms ns : List (List α)} (h : Same fold ls ms) (h' : Same fold ms ns) : Same fold ls ns :=
  Eq.trans h h'

theorem same_cons {l m : List α} {ls ms : List (List α)} :
    Same fold (l::ls) (m::ms) ↔ l.map fold=m.map fold ∧ Same fold ls ms := by
  simp [Same]

/-- A text that goes on behind the first label agrees with the labels if it does up to there and behind. -/
theorem spells_cons {l u r : List α} {ls : List (List α)} (hl : u.length=l.length) : Spells dot fold (l::ls) (u++r) ↔
      u.map fold=l.map fold ∧ (r=[] ∧ Spells dot fold ls [] ∨ ∃ rest,r=dot::rest ∧ Spells dot fold ls rest) := by
  constructor
  · rintro ⟨v,q,heq,hvl,hr⟩
    have hv : u.length=v.length := by
      rw [hl]
      simpa using (congrArg length hvl).symm
    obtain ⟨rfl,rfl⟩ := append_inj heq hv
    exact ⟨hvl,hr⟩
  · rintro ⟨hul,hr⟩
    exact ⟨u,r,rfl,hul,hr⟩

theorem Spells.of_nil {ls : List (List α)} (hne : ∀ l∈ls,l≠[]) (h : Spells dot fold ls []) : ls=[] := by
  cases ls with
  | nil => rfl
  | cons l ls =>
    obtain ⟨u,r,hur,hul,-⟩ := h
    have hu : u=[] := (append_eq_nil_iff.1 hur.symm).1
    subst hu
    exact absurd (map_eq_nil_iff.1 hul.symm) (hne l mem_cons_self)

variable [DecidableEq α]

variable (dot) in
/-- The labels of a text. A dot at its end stands for the root and opens no label. -/
def labels (t : List α) : List (List α) := (if t.getLast?=some dot then t.dropLast else t).splitOn dot

theorem notMem_of_mem_splitOn {t l : List α} (h : l∈t.splitOn dot) : dot∉l := by
  induction t generalizing l with
  | nil =>
    rw [splitOn_nil,mem_singleton] at h
    simp [h]
  | cons c t ih =>
    unfold splitOn at h ih
    rw [splitOnP_cons_eq_if_modifyHead] at h
    split at h
    · rcases mem_cons.1 h with rfl|hm
      · simp
      · exact ih hm
    rename_i hc
    cases hs : splitOnP (fun x => x==dot) t with
    | nil =>
      rw [hs] at h
      exact absurd h not_mem_nil
    | cons first others =>
      rw [hs] at h ih
      rcases mem_cons.1 h with rfl|hm
      · have hf := ih mem_cons_self
        have hne : ¬dot=c := fun heq => hc (beq_iff_eq.2 heq.symm)
        exact fun hm => (mem_cons.1 hm).elim hne hf
      · exact ih (mem_cons_of_mem _ hm)

theorem labels_free {t l : List α} (h : l∈labels dot t) : dot∉l := notMem_of_mem_splitOn h

theorem labels_single {u : List α} (h : dot∉u) : labels dot u=[u] := by
  have hl : u.getLast?≠some dot := fun heq => h (mem_of_getLast? heq)
  unfold labels
  rw [if_neg hl]
  exact splitOn_eq_singleton h

theorem labels_last {u : List α} (h : dot∉u) : labels dot (u++[dot])=[u] := by
  unfold labels
  rw [if_pos (by simp),dropLast_concat]
  exact splitOn_eq_singleton h

theorem labels_append {u r : List α} (h : dot∉u) (hr : r≠[]) : labels dot (u++dot::r)=u::labels dot r := by
  have hl : (u++dot::r).getLast?=r.getLast? := by
    rw [getLast?_append_of_ne_nil _ (cons_ne_nil dot r),getLast?_cons_of_ne_nil hr]
  have hd : (u++dot::r).dropLast=u++dot::r.dropLast := by
    rw [dropLast_append_of_ne_nil (cons_ne_nil dot r),dropLast_cons_of_ne_nil hr]
  unfold labels
  rw [hl,hd]
  split <;> rw [splitOn_append_cons_self,splitOn_eq_singleton h] <;> rfl

theorem Same.free (hf : ∀ c,fold c=dot ↔ c=dot) {ls : List (List α)} {t : List α} (h : Same fold ls (labels dot t)) :
    ∀ l∈ls,dot∉l := by
  intro l hl hd
  have hmp : l.map fold∈(labels dot t).map (map fold) := h ▸ mem_map_of_mem hl
  obtain ⟨m,hm,heq⟩ := mem_map.1 hmp
  have hin : dot∈m.map fold := heq ▸ mem_map.2 ⟨dot,hd,(hf dot).2 rfl⟩
  obtain ⟨c,hc,hcd⟩ := mem_map.1 hin
  exact labels_free hm ((hf c).1 hcd ▸ hc)

/-- Labels without a dot that a text agrees with are the labels of the text. -/
theorem Spells.same (hf : ∀ c,fold c=dot ↔ c=dot) {ls : List (List α)} {t : List α} (hne : ∀ l∈ls,l≠[])
    (hfr : ∀ l∈ls,dot∉l) (ht : t≠[]) (hw : ∀ l∈labels dot t,l≠[]) (h : Spells dot fold ls t) :
    Same fold ls (labels dot t) := by
  induction ls generalizing t with
  | nil =>
    rcases h with rfl|rfl
    · exact absurd rfl ht
    · exact absurd rfl (hw [] (by simp [labels]))
  | cons l ls ih =>
    obtain ⟨u,r,rfl,hul,hr⟩ := h
    have hneTail : ∀ m∈ls,m≠[] := fun m hm => hne m (mem_cons_of_mem _ hm)
    have hfreeTail : ∀ m∈ls,dot∉m := fun m hm => hfr m (mem_cons_of_mem _ hm)
    have hu : dot∉u := by
      intro hd
      have hin : dot∈l.map fold := hul ▸ mem_map.2 ⟨dot,hd,(hf dot).2 rfl⟩
      obtain ⟨c,hc,hcd⟩ := mem_map.1 hin
      exact hfr l mem_cons_self ((hf c).1 hcd ▸ hc)
    rcases hr with ⟨rfl,hrs⟩|⟨rest,rfl,hrs⟩
    · rw [hrs.of_nil hneTail,append_nil,labels_single hu]
      exact same_cons.2 ⟨hul.symm,.refl _⟩
    by_cases hn : rest=[]
    · subst hn
      rw [hrs.of_nil hneTail,labels_last hu]
      exact same_cons.2 ⟨hul.symm,.refl _⟩
    rw [labels_append hu hn] at hw ⊢
    have htl := ih hneTail hfreeTail hn (fun m hm => hw m (mem_cons_of_mem _ hm)) hrs
    exact same_cons.2 ⟨hul.symm,htl⟩

end Text

section Wire

variable (msg : ℕ → BitVec 8) (len : ℕ)

/-- The offset a pointer names. -/
def target (off : ℕ) : ℕ := ((msg off++msg (off+1)) &&& 0x3FFF#16).toNat

/-- A number of octets from an offset on. -/
def octetsAt (off n : ℕ) : List (BitVec 8) := (List.range n).map fun i => msg (off+i)

/-- The labels and the number of pointers a name at an offset of a message unpacks to. -/
inductive Unpacks : ℕ → List (List (BitVec 8)) → ℕ → Prop
  | root {off : ℕ} (hoff : off<len) (hzero : msg off=0) : Unpacks off [] 0
  /-- A length, that many octets and the rest of the name. -/
  | label {off k : ℕ} {ls : List (List (BitVec 8))} (hzero : msg off≠0) (hmax : (msg off).toNat≤63)
      (hlen : off+1+(msg off).toNat≤len) (rest : Unpacks (off+1+(msg off).toNat) ls k) :
      Unpacks off (octetsAt msg (off+1) (msg off).toNat::ls) k
  /-- The rest of the name stands before this. -/
  | pointer {off k : ℕ} {ls : List (List (BitVec 8))} (hoff : off+1<len) (hptr : msg off &&& 0xC0=0xC0)
      (hback : target msg off<off) (rest : Unpacks (target msg off) ls k) : Unpacks off ls (k+1)

/-- Where the octets a name takes up at its own place end. -/
inductive EndsAt : ℕ → ℕ → Prop
  | root {off : ℕ} (hoff : off<len) (hzero : msg off=0) : EndsAt off (off+1)
  | label {off e : ℕ} (hzero : msg off≠0) (hmax : (msg off).toNat≤63) (hlen : off+1+(msg off).toNat≤len)
      (rest : EndsAt (off+1+(msg off).toNat) e) : EndsAt off e
  | pointer {off : ℕ} (hoff : off+1<len) (hptr : msg off &&& 0xC0=0xC0) : EndsAt off (off+2)

/-- Octets of a name written without pointers, the root's included. -/
def wireLen (ls : List (List (BitVec 8))) : ℕ := (ls.map fun l => l.length+1).sum+1

variable {msg len} {off k : ℕ} {ls : List (List (BitVec 8))}

@[simp] theorem length_octetsAt (off n : ℕ) : (octetsAt msg off n).length=n := by simp [octetsAt]

theorem wireLen_cons (l : List (BitVec 8)) (ls : List (List (BitVec 8))) : wireLen (l::ls)=l.length+1+wireLen ls := by
  simp only [wireLen,map_cons,sum_cons]
  omega

theorem not_pointer_of_le {n : BitVec 8} (h : n.toNat≤63) : n &&& 0xC0≠0xC0 := by
  revert n
  decide

@[simp] theorem octetsAt_succ (off n : ℕ) : octetsAt msg off (n+1)=msg off::octetsAt msg (off+1) n := by
  unfold octetsAt
  rw [range_succ_eq_map,map_cons,map_map]
  refine congrArg _ (map_congr_left fun i _ => ?_)
  show msg (off+(i+1))=msg (off+1+i)
  congr 1
  omega

theorem unpacks_zero (ho : off<len) (hz : msg off=0) : Unpacks msg len off ls k ↔ ls=[] ∧ k=0 := by
  constructor
  · intro h
    cases h with
    | root => exact ⟨rfl,rfl⟩
    | label hne => exact absurd hz hne
    | pointer _ hp =>
      rw [hz] at hp
      exact absurd hp (by decide)
  · rintro ⟨rfl,rfl⟩
    exact .root ho hz

theorem unpacks_label (hz : msg off≠0) (hp : msg off &&& 0xC0≠0xC0) : Unpacks msg len off ls k ↔
    (msg off).toNat≤63 ∧ off+1+(msg off).toNat≤len ∧
      ∃ rest,ls=octetsAt msg (off+1) (msg off).toNat::rest ∧ Unpacks msg len (off+1+(msg off).toNat) rest k := by
  constructor
  · intro h
    cases h with
    | root _ heq => exact absurd heq hz
    | label _ hm hl rest => exact ⟨hm,hl,_,rfl,rest⟩
    | pointer _ heq => exact absurd heq hp
  · rintro ⟨hm,hl,rest,rfl,h⟩
    exact .label hz hm hl h

theorem unpacks_pointer (hp : msg off &&& 0xC0=0xC0) : Unpacks msg len off ls k ↔
    off+1<len ∧ target msg off<off ∧ ∃ j,k=j+1 ∧ Unpacks msg len (target msg off) ls j := by
  constructor
  · intro h
    cases h with
    | root _ hz =>
      rw [hz] at hp
      exact absurd hp (by decide)
    | label _ hm => exact absurd hp (not_pointer_of_le hm)
    | pointer ho _ hb rest => exact ⟨ho,hb,_,rfl,rest⟩
  · rintro ⟨ho,hb,j,rfl,h⟩
    exact .pointer ho hp hb h

theorem Unpacks.lt (h : Unpacks msg len off ls k) : off<len := by
  cases h <;> omega

theorem Unpacks.label_ne (h : Unpacks msg len off ls k) : ∀ l∈ls,l≠[] := by
  induction h with
  | root => exact fun l hl => absurd hl not_mem_nil
  | label hz _ _ _ ih =>
    intro l hl
    rcases mem_cons.1 hl with rfl|hm
    · intro hn
      have hln := congrArg length hn
      rw [length_octetsAt] at hln
      exact hz (BitVec.eq_of_toNat_eq hln)
    · exact ih l hm
  | pointer _ _ _ _ ih => exact ih

theorem Unpacks.unique {ms : List (List (BitVec 8))} {j : ℕ} (h : Unpacks msg len off ls k)
    (h' : Unpacks msg len off ms j) : ls=ms ∧ k=j := by
  induction h generalizing ms j with
  | root ho hz =>
    obtain ⟨rfl,rfl⟩ := (unpacks_zero ho hz).1 h'
    exact ⟨rfl,rfl⟩
  | label hz hm _ _ ih =>
    obtain ⟨-,-,rest,rfl,hr⟩ := (unpacks_label hz (not_pointer_of_le hm)).1 h'
    obtain ⟨rfl,rfl⟩ := ih hr
    exact ⟨rfl,rfl⟩
  | pointer _ hp _ _ ih =>
    obtain ⟨-,-,i,rfl,hr⟩ := (unpacks_pointer hp).1 h'
    obtain ⟨rfl,rfl⟩ := ih hr
    exact ⟨rfl,rfl⟩

theorem EndsAt.unique {d e : ℕ} (h : EndsAt msg len off d) (h' : EndsAt msg len off e) : d=e := by
  induction h with
  | root _ hz =>
    cases h' with
    | root => rfl
    | label hne => exact absurd hz hne
    | pointer _ hp =>
      rw [hz] at hp
      exact absurd hp (by decide)
  | label hz hm _ _ ih =>
    cases h' with
    | root _ heq => exact absurd heq hz
    | label _ _ _ rest => exact ih rest
    | pointer _ hp => exact absurd hp (not_pointer_of_le hm)
  | pointer _ hp =>
    cases h' with
    | root _ hz =>
      rw [hz] at hp
      exact absurd hp (by decide)
    | label _ hm => exact absurd hp (not_pointer_of_le hm)
    | pointer => rfl

end Wire

end IdemIp.DomainName
