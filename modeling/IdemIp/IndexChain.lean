import Mathlib.Data.List.Nodup
import Mathlib.Data.Finset.Card
import Mathlib.Data.Fintype.Basic

/-!
# Lists threaded through a table by index

A table entry names the next entry of its list by index, and every index from
`bound` on names none. A chain is a path that ends at the `stop` index. Where rows
share one table out, every slot in use stands once on the list of its row and a
counter says how many there are.
-/

namespace IdemIp.IndexChain

open List Function

section Paths

variable {next next' : ℕ → ℕ} {bound stop : ℕ}

/-- Following `next` from `a` visits the list and arrives at `b`. -/
def Path (next : ℕ → ℕ) (bound : ℕ) : ℕ → List ℕ → ℕ → Prop
  | a,[],b => a=b
  | a,i::is,b => a=i ∧ i<bound ∧ Path next bound (next i) is b

/-- A list that starts at `head` and ends in the `stop` index. -/
def Chain (next : ℕ → ℕ) (bound stop head : ℕ) (l : List ℕ) : Prop := Path next bound head l stop

theorem Chain.nil : Chain next bound stop stop [] := rfl

variable {a : ℕ} {l m : List ℕ}

theorem path_append {c : ℕ} : Path next bound a (l++m) c ↔ ∃ b, Path next bound a l b ∧ Path next bound b m c := by
  induction l generalizing a with
  | nil => simp [Path]
  | cons i is ih =>
    simp only [cons_append,Path,ih]
    constructor
    · rintro ⟨ha,hi,b,hl,hm⟩
      exact ⟨b,⟨ha,hi,hl⟩,hm⟩
    · rintro ⟨b,⟨ha,hi,hl⟩,hm⟩
      exact ⟨ha,hi,b,hl,hm⟩

variable {b i : ℕ}

theorem Path.lt (h : Path next bound a l b) (hi : i∈l) : i<bound := by
  induction l generalizing a with
  | nil => simp at hi
  | cons j js ih =>
    rcases mem_cons.mp hi with rfl|hi
    · exact h.2.1
    · exact ih h.2.2 hi

/-- A path depends on the links of the entries it visits and on no others. -/
theorem Path.congr (h : Path next bound a l b) (hn : ∀ i∈l,next' i=next i) : Path next' bound a l b := by
  induction l generalizing a with
  | nil => exact h
  | cons i is ih =>
    refine ⟨h.1,h.2.1,?_⟩
    rw [hn i mem_cons_self]
    exact ih h.2.2 (fun j hj => hn j (mem_cons_of_mem i hj))

theorem Chain.unique (hs : bound ≤ stop) (hl : Chain next bound stop a l) (hm : Chain next bound stop a m) : l=m := by
  induction l generalizing a m with
  | nil =>
    cases m with
    | nil => rfl
    | cons j js =>
      have ha : a=stop := hl
      have hj := hm.2.1
      have haj : a=j := hm.1
      omega
  | cons i is ih =>
    cases m with
    | nil =>
      have ha : a=stop := hm
      have hi := hl.2.1
      have hai : a=i := hl.1
      omega
    | cons j js =>
      have hij : i=j := hl.1.symm.trans hm.1
      subst hij
      rw [ih hl.2.2 hm.2.2]

variable (hs : bound ≤ stop) (h : Chain next bound stop a l)
include hs h

theorem Chain.nodup : l.Nodup := by
  induction l generalizing a with
  | nil => exact nodup_nil
  | cons i is ih =>
    refine nodup_cons.mpr ⟨fun hm => ?_,ih h.2.2⟩
    -- A second visit would make the list from `i` equal to a proper suffix of itself.
    obtain ⟨pre,post,hsp⟩ := append_of_mem hm
    have ht : Path next bound (next i) (pre++i::post) stop := hsp ▸ h.2.2
    obtain ⟨b,-,hp⟩ := path_append.mp ht
    have hb : b=i := hp.1
    have heq := Chain.unique hs (hb ▸ hp : Chain next bound stop i (i::post))
      (show Chain next bound stop i (i::is) from ⟨rfl,h.2.1,h.2.2⟩)
    have hl := congrArg length heq
    rw [hsp] at hl
    simp at hl
    omega

theorem Chain.length_le : l.length≤bound := by
  have hsb : l.toFinset⊆Finset.range bound := by
    intro i hi
    exact Finset.mem_range.mpr (Path.lt h (mem_toFinset.mp hi))
  have hc := Finset.card_le_card hsb
  rwa [toFinset_card_of_nodup (h.nodup hs),Finset.card_range] at hc

theorem Chain.nil_iff : bound≤a ↔ l=[] := by
  cases l with
  | nil =>
    have ha : a=stop := h
    simp [ha,hs]
  | cons i is =>
    have ha : a=i := h.1
    have hi := h.2.1
    simp
    omega

omit hs h

variable (h : Chain next bound stop a l)
include h

theorem Chain.iterate {k : ℕ} (hk : l[i]?=some k) : next^[i] a=k := by
  induction l generalizing a i with
  | nil => cases hk
  | cons x l ih =>
    obtain ⟨rfl,-,hr⟩ := h
    cases i with
    | zero =>
      cases hk
      rfl
    | succ i =>
      have hn : next^[i] (next a)=k := ih hr hk
      exact hn

/-- Where a path into the rest of a chain arrives: its first entry, or `stop`. -/
theorem Chain.head_eq : a=l.head?.getD stop := by
  cases l with
  | nil => exact h
  | cons i is => exact h.1

variable {p t : ℕ} {pre post : List ℕ}

omit h in
theorem Chain.remove (h : Chain next bound stop a (pre++p::t::post))
    (hp : next' p=next t) (hsm : ∀ i∈pre++post,next' i=next i) : Chain next' bound stop a (pre++p::post) := by
  obtain ⟨b,hpr,hb,hpl,hpt,htlt,hps⟩ := path_append.mp h
  refine path_append.mpr ⟨b,hpr.congr fun i hi => hsm i (mem_append_left post hi),hb,hpl,?_⟩
  rw [hp]
  exact Path.congr hps fun i hi => hsm i (mem_append_right pre hi)

omit h in
theorem Chain.tail (h : Chain next bound stop a (t::l)) : Chain next bound stop (next t) l := h.2.2

theorem Chain.split_pred (ht : t∈l) (hne : a≠t) : ∃ pre p post, l=pre++p::t::post := by
  obtain ⟨front,post,rfl⟩ := append_of_mem ht
  rcases eq_nil_or_concat' front with rfl|⟨pre,p,rfl⟩
  · exact absurd h.1 hne
  · exact ⟨pre,p,post,by simp⟩

theorem Chain.split_head (ha : a∈l) : ∃ post, l=a::post := by
  cases l with
  | nil => simp at ha
  | cons i is =>
    have hai : a=i := h.1
    exact ⟨is,by rw [hai]⟩

variable {x : ℕ}

omit h in
theorem Chain.insert (h : Chain next bound stop a (pre++p::post))
    (hx : x<bound) (hnx : next' x=post.head?.getD stop) (hp : next' p=x)
    (hsm : ∀ i∈pre++post,next' i=next i) : Chain next' bound stop a (pre++p::x::post) := by
  obtain ⟨b,hpr,hb,hpl,hps⟩ := path_append.mp h
  refine path_append.mpr ⟨b,hpr.congr fun i hi => hsm i (mem_append_left post hi),hb,hpl,hp,hx,?_⟩
  rw [hnx,←Chain.head_eq hps]
  exact Path.congr hps fun i hi => hsm i (mem_append_right pre hi)

theorem Chain.cons (hx : x<bound) (hnx : next' x=a) (hsm : ∀ i∈l,next' i=next i) : Chain next' bound stop x (x::l) := by
  refine ⟨rfl,hx,?_⟩
  rw [hnx]
  exact Path.congr h hsm

end Paths

section Walks

variable {next : ℕ → ℕ} {bound stop : ℕ}

/-- Entries met in at most `fuel` steps from an index. -/
def walk (next : ℕ → ℕ) (bound : ℕ) : ℕ → ℕ → List ℕ
  | 0,_ => []
  | fuel+1,i => if i<bound then i::walk next bound fuel (next i) else []

/-- First entry met whose link is the target. -/
def pred? (next : ℕ → ℕ) (bound target : ℕ) : ℕ → ℕ → Option ℕ
  | 0,_ => none
  | fuel+1,i =>
    if i<bound then
      if next i=target then some i else pred? next bound target fuel (next i)
    else none

/-- First entry met whose link names none. -/
def tail? (next : ℕ → ℕ) (bound : ℕ) : ℕ → ℕ → Option ℕ
  | 0,_ => none
  | fuel+1,i => if bound≤next i then some i else tail? next bound fuel (next i)

/-- Last entry passed, and first one not passed, while `stays` is false of the entries met. -/
def seek (next : ℕ → ℕ) (bound : ℕ) (stays : ℕ → Bool) : ℕ → ℕ → ℕ → ℕ×ℕ
  | 0,prev,i => (prev,i)
  | fuel+1,prev,i =>
    if i<bound then
      if stays i then (prev,i) else seek next bound stays fuel i (next i)
    else (prev,i)

/-- Overwrite the rows met in at most `fuel` steps, each link read before its row is written. -/
def wipe {α : Type*} (next : α → ℕ) (bound : ℕ) (z : α) : ℕ → ℕ → (ℕ → α) → ℕ → α
  | 0,_,tab => tab
  | fuel+1,i,tab =>
    if i<bound then wipe next bound z fuel (next (tab i)) (update tab i z) else tab

variable {a fuel : ℕ} {l : List ℕ}

variable (hs : bound ≤ stop)
include hs

variable (h : Chain next bound stop a l)
include h

theorem walk_chain (hf : l.length≤fuel) : walk next bound fuel a=l := by
  induction l generalizing a fuel with
  | nil =>
    have ha : a=stop := h
    cases fuel with
    | zero => rfl
    | succ fuel =>
      unfold walk
      rw [if_neg (by omega)]
  | cons i is ih =>
    cases fuel with
    | zero => simp at hf
    | succ fuel =>
      have ha : a=i := h.1
      unfold walk
      rw [ha,if_pos h.2.1,ih h.2.2 (by simpa using hf)]

variable {p t : ℕ} {pre post : List ℕ}

omit h in
theorem pred?_chain (h : Chain next bound stop a (pre++p::t::post)) (hf : (pre++p::t::post).length≤fuel) :
    pred? next bound t fuel a=some p := by
  induction pre generalizing a fuel with
  | nil =>
    cases fuel with
    | zero => simp at hf
    | succ fuel =>
      have ha : a=p := h.1
      have hpt : next p=t := h.2.2.1
      unfold pred?
      rw [ha,if_pos h.2.1,if_pos hpt]
  | cons i is ih =>
    cases fuel with
    | zero => simp at hf
    | succ fuel =>
      have ha : a=i := h.1
      have hr : Chain next bound stop (next i) (is++p::t::post) := h.2.2
      have hnd := hr.nodup hs
      have hne : next i≠t := by
        rw [hr.head_eq]
        cases is with
        | nil =>
          intro (he : p=t)
          simp [he] at hnd
        | cons j js =>
          intro (he : j=t)
          simp [he] at hnd
      unfold pred?
      rw [ha,if_pos h.2.1,if_neg hne]
      exact ih hr (by simpa using hf)

theorem pred?_absent (ht : t<bound) (hmm : t∉l) : pred? next bound t fuel a=none := by
  induction l generalizing a fuel with
  | nil =>
    have ha : a=stop := h
    cases fuel with
    | zero => rfl
    | succ fuel =>
      unfold pred?
      rw [if_neg (by omega)]
  | cons i is ih =>
    have ha : a=i := h.1
    have hr : Chain next bound stop (next i) is := h.2.2
    have hne : next i≠t := by
      rw [hr.head_eq]
      cases is with
      | nil => exact fun he => by simp at he; omega
      | cons j js => exact fun he => hmm (by simp at he; simp [he])
    cases fuel with
    | zero => rfl
    | succ fuel =>
      unfold pred?
      rw [ha,if_pos h.2.1,if_neg hne]
      exact ih hr (fun hm => hmm (mem_cons_of_mem i hm))

omit h in
theorem tail?_chain (h : Chain next bound stop a (l++[p])) (hf : (l++[p]).length≤fuel) : tail? next bound fuel a=some p := by
  induction l generalizing a fuel with
  | nil =>
    cases fuel with
    | zero => simp at hf
    | succ fuel =>
      have ha : a=p := h.1
      have hend : next p=stop := h.2.2
      unfold tail?
      rw [ha,if_pos (by omega)]
  | cons i is ih =>
    cases fuel with
    | zero => simp at hf
    | succ fuel =>
      have ha : a=i := h.1
      have hr : Chain next bound stop (next i) (is++[p]) := h.2.2
      have hlt : ¬bound≤next i := by
        rw [hr.nil_iff hs]
        simp
      unfold tail?
      rw [ha,if_neg hlt]
      exact ih hr (by simpa using hf)

variable {prev : ℕ}

/-- The walk stops between the entries it passes and the rest of the chain. -/
theorem seek_chain {stays : ℕ → Bool} (hf : l.length≤fuel) :
    seek next bound stays fuel prev a=((l.takeWhile fun i => !stays i).getLast?.getD prev,
        (l.dropWhile fun i => !stays i).head?.getD stop) := by
  induction l generalizing a fuel prev with
  | nil =>
    have ha : a=stop := h
    cases fuel with
    | zero => simp [seek,ha]
    | succ fuel =>
      unfold seek
      rw [if_neg (by omega)]
      simp [ha]
  | cons i is ih =>
    cases fuel with
    | zero => simp at hf
    | succ fuel =>
      have ha : a=i := h.1
      unfold seek
      rw [ha,if_pos h.2.1]
      cases hi : stays i with
      | true => simp [hi]
      | false =>
        rw [if_neg (by simp),ih h.2.2 (by simpa using hf)]
        simp only [hi,Bool.not_false,takeWhile_cons_of_pos,dropWhile_cons_of_pos]
        cases is.takeWhile fun i => !stays i with
        | nil => simp
        | cons j js => simp [getLast?_cons]

theorem seek_prev (stays : ℕ → Bool) (prev : ℕ)
    (hf : l.length≤fuel) : (seek next bound stays fuel prev a).1=prev ∨ (seek next bound stays fuel prev a).1∈l := by
  rw [seek_chain hs h hf]
  cases hl : (l.takeWhile fun i => !stays i).getLast? with
  | none => exact .inl rfl
  | some p => exact .inr ((takeWhile_sublist _).subset (mem_of_getLast? hl))

theorem Chain.head_mem (ha : a<bound) : a∈l := by
  cases l with
  | nil =>
    have hstop : a=stop := h
    omega
  | cons i is =>
    have hai : a=i := h.1
    simp [hai]

/-- Unlinking an entry: the head moves on, or the entry found before it inherits its link. -/
theorem Chain.unlink (ht : t∈l) : (a=t ∧ Chain next bound stop (next t) (l.erase t)) ∨
    (a≠t ∧ ∃ p∈l,p≠t ∧ pred? next bound t bound a=some p ∧ Chain (update next p (next t)) bound stop a (l.erase t)) := by
  have hnd := h.nodup hs
  by_cases hat : a=t
  · obtain ⟨post,rfl⟩ := h.split_head (hat ▸ ht)
    subst hat
    exact .inl ⟨rfl,by simpa using h.tail⟩
  obtain ⟨pre,p,post,rfl⟩ := h.split_pred ht hat
  have hsp := nodup_append.mp hnd
  have hpt : p≠t := fun he => by simp [he] at hsp
  have htp : t∉pre := fun hm => hsp.2.2 t hm t (by simp) rfl
  have hpp : p∉pre := fun hm => hsp.2.2 p hm p (by simp) rfl
  have hp : p∉post := fun hm => by simp [hm] at hsp
  have her : (pre++p::t::post).erase t=pre++p::post := by
    rw [erase_append_right _ htp]
    simp [hpt]
  refine .inr ⟨hat,p,by simp,hpt,pred?_chain hs h (h.length_le hs),?_⟩
  rw [her]
  refine h.remove (by simp) fun i hi => ?_
  have hip : i≠p := by
    rintro rfl
    rcases mem_append.mp hi with hm|hm
    · exact hpp hm
    · exact hp hm
  simp [hip]

variable {x : ℕ}

/-- Hanging an entry behind a chain: it becomes the head, or the last entry found links to it. -/
theorem Chain.hang (hx : x<bound) (hxl : x∉l) (hnx : next x=stop) : (bound≤a ∧ l=[] ∧ Chain next bound stop x [x]) ∨
    (a<bound ∧ ∃ p∈l,tail? next bound bound a=some p ∧ Chain (update next p x) bound stop a (l++[x])) := by
  rcases eq_nil_or_concat' l with rfl|⟨pre,p,rfl⟩
  · exact .inl ⟨(h.nil_iff hs).mpr rfl,rfl,show Chain next bound stop x [x] from ⟨rfl,hx,hnx⟩⟩
  have hnd := nodup_append.mp (h.nodup hs)
  have hxp : x≠p := fun he => hxl (by simp [he])
  have hlt : a<bound := by
    by_contra hge
    have hn := (h.nil_iff hs).mp (not_lt.mp hge)
    simp at hn
  refine .inr ⟨hlt,p,by simp,tail?_chain hs h (h.length_le hs),?_⟩
  rw [append_assoc]
  refine h.insert hx (by simp [hxp,hnx]) (by simp) fun i hi => ?_
  have hip : i≠p := by
    rintro rfl
    exact hnd.2.2 i (by simpa using hi) i (by simp) rfl
  simp [hip]

theorem Chain.thread (stays : ℕ → Bool) (hx : x<bound) (hxl : x∉l) (hpr : bound≤prev) :
    let place := seek next bound stays bound prev a
    let linked := update next x place.2
    let l' := (l.takeWhile fun i => !stays i)++x::(l.dropWhile fun i => !stays i)
    (bound≤place.1 ∧ Chain linked bound stop x l') ∨
    (place.1<bound ∧ place.1∈l ∧ Chain (update linked place.1 x) bound stop a l') := by
  intro place linked l'
  have hplace : place=_ := seek_chain hs h (h.length_le hs)
  have hl : (l.takeWhile fun i => !stays i)++(l.dropWhile fun i => !stays i)=l := takeWhile_append_dropWhile
  revert hplace l' hl
  generalize (l.takeWhile fun i => !stays i)=front
  generalize (l.dropWhile fun i => !stays i)=back
  rintro l' hplace rfl
  rcases eq_nil_or_concat' front with rfl|⟨pre,p,rfl⟩
  · have ha : place.2=a := by rw [hplace]; exact h.head_eq.symm
    refine .inl ⟨by rw [hplace]; exact hpr,?_⟩
    refine h.cons hx (by simp [linked,ha]) fun i hi => ?_
    have hix : i≠x := fun he => hxl (he ▸ hi)
    simp [linked,hix]
  have hp : place.1=p := by rw [hplace]; simp
  have hpl : p<bound := Path.lt h (by simp)
  have hxp : x≠p := fun he => hxl (by simp [he])
  refine .inr ⟨by rw [hp]; exact hpl,by rw [hp]; simp,?_⟩
  rw [hp]
  have hc : Chain next bound stop a (pre++p::back) := by simpa using h
  have hsp := nodup_append.mp (hc.nodup hs)
  have hls : l'=pre++p::x::back := by simp [l']
  rw [hls]
  refine hc.insert hx ?_ (by simp) fun i hi => ?_
  · simp [linked,hxp,hplace]
  · have hix : i≠x := by
      rintro rfl
      exact hxl (by rcases mem_append.mp hi with hm|hm <;> simp [hm])
    have hip : i≠p := by
      rintro rfl
      rcases mem_append.mp hi with hm|hm
      · exact hsp.2.2 i hm i (by simp) rfl
      · simp [hm] at hsp
    simp [linked,hix,hip]

omit h

theorem wipe_chain {α : Type*} {next : α → ℕ} {z : α} {tab : ℕ → α}
    (h : Chain (fun i => next (tab i)) bound stop a l) (hf : l.length≤fuel) :
    wipe next bound z fuel a tab=fun i => if i∈l then z else tab i := by
  induction l generalizing a fuel tab with
  | nil =>
    have ha : a=stop := h
    cases fuel with
    | zero => simp [wipe]
    | succ fuel =>
      unfold wipe
      rw [if_neg (by omega)]
      simp
  | cons i is ih =>
    cases fuel with
    | zero => simp at hf
    | succ fuel =>
      have ha : a=i := h.1
      have hnd := nodup_cons.mp (h.nodup hs)
      have hr : Chain (fun j => next (update tab i z j)) bound stop (next (tab i)) is := by
        refine Path.congr h.2.2 fun j hj => ?_
        have hji : j≠i := fun he => hnd.1 (he ▸ hj)
        simp [hji]
      unfold wipe
      rw [ha,if_pos h.2.1,ih hr (by simpa using hf)]
      funext j
      by_cases hji : j=i <;> simp [hji]

end Walks

section Scans

/-- First row that satisfies a test, as the table scans look for one. -/
def firstIndex (n : ℕ) (p : ℕ → Bool) : Option ℕ := (List.range n).find? p

variable {n i : ℕ}

/-- A scan finds a row of the table that satisfies the test and that no earlier row does. -/
theorem firstIndex_some {p : ℕ → Bool} : firstIndex n p=some i ↔ p i=true ∧ i<n ∧ ∀ j < i,p j=false := by
  unfold firstIndex
  rw [find?_range_eq_some]
  simp

theorem firstIndex_none {p : ℕ → Bool} : firstIndex n p=none ↔ ∀ i<n,p i=false := by
  unfold firstIndex
  rw [find?_range_eq_none]
  simp

/-- A scan whose test can hold of one row only finds that row or none. -/
theorem firstIndex_only {p : ℕ → Bool} (hi : i<n) (h : ∀ j<n,j≠i → p j=false) :
    firstIndex n p=if p i then some i else none := by
  cases hp : p i with
  | true => exact firstIndex_some.2 ⟨hp,hi,fun j hj => h j (hj.trans hi) hj.ne⟩
  | false =>
    refine firstIndex_none.2 fun j hj => ?_
    by_cases hji : j=i
    · rw [hji,hp]
    · exact h j hj hji

variable {f g : ℕ → Bool} {p : ℕ}

theorem countP_range_shift (h : ∀ q,q≠p → f q=g q) :
    ∀ {n : ℕ},p<n → (range n).countP f+(g p).toNat=(range n).countP g+(f p).toNat := by
  intro n
  induction n with
  | zero => exact fun hp => absurd hp (Nat.not_lt_zero p)
  | succ n ih =>
    intro hp
    rw [range_succ,countP_append,countP_append,countP_singleton,countP_singleton]
    by_cases hpn : p=n
    · subst hpn
      have hl : (range p).countP f=(range p).countP g :=
        countP_congr fun q hq => by rw [h q (mem_range.1 hq).ne]
      cases f p <;> cases g p <;> simp [hl]
    · have hl := ih (by omega)
      rw [h n (Ne.symm hpn)]
      omega

theorem countP_range_add (hp : p<n) (hf : f p=false) (hg : g p=true) (h : ∀ q,q≠p → g q=f q) :
    (range n).countP g=(range n).countP f+1 := by
  have hsh := countP_range_shift h hp
  rw [hf,hg] at hsh
  exact hsh

theorem countP_range_sub (hp : p<n) (hf : f p=true) (hg : g p=false) (h : ∀ q,q≠p → g q=f q) :
    (range n).countP g=(range n).countP f-1 := by
  have hadd := countP_range_add hp hg hf fun q hq => (h q hq).symm
  omega

end Scans

end IdemIp.IndexChain

namespace IdemIp.Slots

open IndexChain List Function

variable {rows size : ℕ} {ls : ℕ → List ℕ}

/-- The slots of all rows, row after row. -/
def flat (rows : ℕ) (lists : ℕ → List ℕ) : List ℕ := (List.range rows).flatMap lists

theorem flat_succ (rows : ℕ) (ls : ℕ → List ℕ) : flat (rows+1) ls=flat rows ls++ls rows := by
  simp [flat,range_succ]

theorem mem_flat {i : ℕ} : i∈flat rows ls ↔ ∃ d < rows,i∈ls d := by
  simp [flat]

variable {other : ℕ → List ℕ}

theorem flat_congr (h : ∀ d < rows,other d=ls d) : flat rows other=flat rows ls := by
  exact flatMap_congr fun d hd => h d (mem_range.1 hd)

theorem flat_update {d : ℕ} (hd : d < rows) {l : List ℕ} :
    (flat rows (update ls d l)).Perm (l++flat rows (update ls d [])) := by
  induction rows with
  | zero => omega
  | succ n ih =>
    rw [flat_succ,flat_succ]
    by_cases hdn : d=n
    · subst hdn
      have hsm : ∀ m : List ℕ,flat d (update ls d m)=flat d ls := fun m =>
        flat_congr fun k hk => update_of_ne hk.ne m ls
      rw [hsm,hsm,update_self,update_self,append_nil]
      exact perm_append_comm
    · rw [update_of_ne (Ne.symm hdn),update_of_ne (Ne.symm hdn),←append_assoc]
      exact (ih (by omega)).append_right (ls n)

theorem flat_split {d : ℕ} (hd : d < rows) : (flat rows ls).Perm (ls d++flat rows (update ls d [])) := by
  have h : (flat rows (update ls d (ls d))).Perm (ls d++flat rows (update ls d [])) :=
    flat_update hd
  rwa [update_eq_self] at h

theorem flat_insert {d i : ℕ} {l : List ℕ} (hd : d < rows) (hl : l.Perm (i::ls d)) :
    (flat rows (update ls d l)).Perm (i::flat rows ls) :=
  (flat_update hd).trans ((hl.append_right _).trans ((flat_split hd).symm.cons i))

theorem flat_remove {d i : ℕ} {l : List ℕ} (hd : d < rows) (hl : (ls d).Perm (i::l)) :
    (flat rows ls).Perm (i::flat rows (update ls d l)) :=
  (flat_split hd).trans ((hl.append_right _).trans ((flat_update hd).symm.cons i))

variable {more : ℕ → List ℕ}

/-- Lists that are longer by one at most, and only in the rows that count, are longer by those rows at most. -/
theorem flat_length_le {counts : ℕ → Bool} (hle : ∀ k < rows,(ls k).length≤(more k).length+if counts k then 1 else 0) :
    (flat rows ls).length≤(flat rows more).length+(range rows).countP counts := by
  induction rows with
  | zero => exact Nat.zero_le _
  | succ n ih =>
    have hrest := ih fun k hk => hle k (by omega)
    have hlast := hle n (by omega)
    rw [flat_succ,flat_succ,range_succ,length_append,length_append,countP_append,countP_singleton]
    omega

/-- Rows that each hold no more than other rows and one, one of them fewer, hold fewer in all. -/
theorem flat_length_lt {d : ℕ} (hd : d < rows) (hle : ∀ k < rows,(ls k).length≤(more k).length+1)
    (hlt : (ls d).length≤(more d).length) : (flat rows ls).length<(flat rows more).length+rows := by
  have hbound : (flat rows ls).length≤(flat rows more).length+(range rows).countP fun k => k != d := by
    refine flat_length_le fun k hk => ?_
    by_cases hkd : k=d
    · simpa [hkd] using hlt
    · simpa [hkd] using hle k hk
  have hfewer : ((range rows).countP fun k => k != d) < rows := by
    have hl : (range rows).countP (fun k => k != d)≤(range rows).length := countP_le_length
    have hne : (range rows).countP (fun k => k != d)≠(range rows).length := fun heq => by
      have ha := countP_eq_length.1 heq d (mem_range.2 hd)
      simp at ha
    rw [length_range] at hl hne
    omega
  omega

theorem filterMap_range {α β : Type*} {f : ℕ → Option β} {g : α → β} {l : List α}
    (h : ∀ i k,l[i]?=some k → f i=some (g k)) : (range l.length).filterMap f=l.map g := by
  induction l using reverseRecOn with
  | nil => rfl
  | append_singleton l x ih =>
    have hin : ∀ i k,l[i]?=some k → f i=some (g k) := by
      intro i k hk
      obtain ⟨hi,-⟩ := List.getElem?_eq_some_iff.1 hk
      exact h i k (by rw [getElem?_append_left hi,hk])
    have hl : f l.length=some (g x) := h l.length x getElem?_concat_length
    rw [length_append,length_singleton,range_succ,filterMap_append,map_append,ih hin]
    simp [hl]

theorem filterMap_range_insert {β : Type*} {f g : ℕ → Option β} {n p : ℕ} {x : β} (hp : p<n) (hg : g p=some x)
    (hf : f p=none) (h : ∀ q,q≠p → g q=f q) : ((range n).filterMap g).Perm (x::(range n).filterMap f) := by
  have hsp : (range n).Perm (p::(range n).erase p) := perm_cons_erase (mem_range.2 hp)
  have hr : ((range n).erase p).filterMap g=((range n).erase p).filterMap f :=
    filterMap_congr fun q hq => h q (nodup_range.mem_erase_iff.1 hq).1
  refine (hsp.filterMap g).trans ?_
  rw [filterMap_cons_some hg,hr]
  refine List.Perm.cons x (List.Perm.trans ?_ (hsp.filterMap f).symm)
  rw [filterMap_cons_none hf]

/-- A table whose slots in use stand once on the lists of the rows they belong to. -/
structure Kept (rows size : ℕ) (used : ℕ → Bool) (count : ℕ) (lists : ℕ → List ℕ) : Prop where
  /-- A slot is on a list exactly when it is in use. -/
  mem : ∀ i,i∈flat rows lists ↔ i < size ∧ used i=true
  nodup : (flat rows lists).Nodup
  count_eq : count=(flat rows lists).length

section Kept

variable {used : ℕ → Bool} {count d : ℕ}

theorem Kept.empty (h : ∀ i < size,used i=false) : Kept rows size used 0 fun _ => [] := by
  have hf : flat rows (fun _ => [])=[] := by simp [flat]
  refine ⟨fun i => ?_,by rw [hf]; exact nodup_nil,by rw [hf]; rfl⟩
  rw [hf]
  refine iff_of_false not_mem_nil fun hu => ?_
  rw [h i hu.1] at hu
  cases hu.2

theorem length_flat_update (ls : ℕ → List ℕ) (l : List ℕ) (hd : d < rows) :
    (flat rows (update ls d l)).length+(ls d).length=(flat rows ls).length+l.length := by
  have hn : (flat rows (update ls d l)).length=(l++flat rows (update ls d [])).length :=
    (flat_update hd).length_eq
  have ho : (flat rows ls).length=(ls d++flat rows (update ls d [])).length := (flat_split hd).length_eq
  rw [length_append] at hn ho
  omega

variable (h : Kept rows size used count ls)
include h

theorem Kept.congr {used' : ℕ → Bool}
    (hu : ∀ i < size,used' i=used i) (hl : ∀ k < rows,other k=ls k) : Kept rows size used' count other := by
  have hf := flat_congr hl
  refine ⟨fun i => ?_,by rw [hf]; exact h.nodup,by rw [hf]; exact h.count_eq⟩
  rw [hf,h.mem i]
  refine and_congr_right fun hi => ?_
  rw [hu i hi]

variable {i : ℕ} {l : List ℕ}

theorem Kept.used_of_mem (hd : d < rows) (hi : i∈ls d) : i < size ∧ used i := (h.mem i).1 (mem_flat.2 ⟨d,hd,hi⟩)

theorem Kept.nodup_row (hd : d < rows) : (ls d).Nodup :=
  (nodup_append.1 ((flat_split hd).nodup_iff.1 h.nodup)).1

theorem Kept.row_unique {k i : ℕ} (hd : d < rows) (hk : k < rows) (hi : i∈ls d) (hi' : i∈ls k) : d=k := by
  by_contra hne
  have hsp := (flat_split hd).nodup_iff.1 h.nodup
  have hr : i∈flat rows (update ls d []) := mem_flat.2 ⟨k,hk,by
    rwa [update_of_ne (Ne.symm hne)]⟩
  exact (nodup_append.1 hsp).2.2 i hi i hr rfl

theorem Kept.perm_range : (flat rows ls).Perm ((range size).filter used) := by
  refine (perm_ext_iff_of_nodup h.nodup (nodup_range.filter _)).2 fun i => ?_
  rw [h.mem i,mem_filter,mem_range]

theorem Kept.count_eq_countP : count=(range size).countP used := by
  rw [h.count_eq,h.perm_range.length_eq,countP_eq_length_filter]

theorem Kept.count_le : count ≤ size := by
  have hsb : (flat rows ls).toFinset⊆Finset.range size := by
    intro i hi
    exact Finset.mem_range.2 ((h.mem i).1 (mem_toFinset.1 hi)).1
  have hc := Finset.card_le_card hsb
  rwa [toFinset_card_of_nodup h.nodup,Finset.card_range,←h.count_eq] at hc

theorem Kept.free (hlt : count < size) : ∃ i,firstIndex size (fun k => !used k)=some i := by
  cases hf : firstIndex size (fun k => !used k) with
  | some i => exact ⟨i,rfl⟩
  | none =>
    have ha : ∀ i < size,used i := fun i hi => by simpa using firstIndex_none.1 hf i hi
    have hsb : Finset.range size⊆(flat rows ls).toFinset := by
      intro i hi
      have hi' := Finset.mem_range.1 hi
      exact mem_toFinset.2 ((h.mem i).2 ⟨hi',ha i hi'⟩)
    have hc := Finset.card_le_card hsb
    rw [toFinset_card_of_nodup h.nodup,Finset.card_range,←h.count_eq] at hc
    omega

theorem Kept.insert (hd : d < rows) (hi : i < size) (hf : used i=false) (hl : l.Perm (i::ls d)) :
    Kept rows size (update used i true) (count+1) (update ls d l) := by
  have hn := flat_insert hd hl
  have hnt : i∉flat rows ls := by
    intro hm
    have hu := ((h.mem i).1 hm).2
    rw [hf] at hu
    cases hu
  refine ⟨fun k => ?_,hn.nodup_iff.2 (nodup_cons.2 ⟨hnt,h.nodup⟩),?_⟩
  · rw [hn.mem_iff,mem_cons,h.mem k]
    by_cases hk : k=i
    · subst hk
      simp [hi]
    · simp [hk]
  · rw [hn.length_eq,length_cons,h.count_eq]

theorem Kept.remove (hd : d < rows) (hl : (ls d).Perm (i::l)) :
    Kept rows size (update used i false) (count-1) (update ls d l) := by
  have ho := flat_remove hd hl
  have hnd := nodup_cons.1 (ho.nodup_iff.1 h.nodup)
  refine ⟨fun k => ?_,hnd.2,?_⟩
  · by_cases hk : k=i
    · subst hk
      simp [hnd.1]
    · have hm : k∈flat rows ls ↔ k∈flat rows (update ls d l) := by
        rw [ho.mem_iff,mem_cons]
        simp [hk]
      rw [←hm,h.mem k,update_of_ne hk]
  · rw [h.count_eq,ho.length_eq]
    rfl

/-- A slot in use for another row does not come to stand on the list of this one. -/
theorem Kept.off_list {used' : ℕ → Bool} {count' : ℕ}
    (h' : Kept rows size used' count' (update ls d l)) (hd : d < rows) (hi : i∉ls d) (hu : used i) : i∉l := by
  intro hil
  have hm : i∈update ls d l d := by rwa [update_self]
  obtain ⟨k,hk,hik⟩ := mem_flat.1 ((h.mem i).2 ⟨(h'.used_of_mem hd hm).1,hu⟩)
  have hkd : k≠d := by
    rintro rfl
    exact hi hik
  exact hkd (h'.row_unique hk hd (by rwa [update_of_ne hkd]) hm)

theorem Kept.release (hd : d < rows) :
    Kept rows size (fun i => if i∈ls d then false else used i) (count-(ls d).length) (update ls d []) := by
  have ho : (flat rows ls).Perm (ls d++flat rows (update ls d [])) := flat_split hd
  have hnd := nodup_append.1 (ho.nodup_iff.1 h.nodup)
  refine ⟨fun k => ?_,hnd.2.1,?_⟩
  · have hk := h.mem k
    rw [ho.mem_iff,mem_append] at hk
    by_cases hm : k∈ls d
    · simp only [if_pos hm]
      refine iff_of_false (fun hr => hnd.2.2 k hm k hr rfl) (by simp)
    · rw [if_neg hm,←hk]
      simp [hm]
  · rw [h.count_eq,ho.length_eq,length_append]
    omega

end Kept

/-- The list of every row in use is threaded through the table from the head the row names. -/
structure Threaded (rows size stop : ℕ) (used : ℕ → Bool) (count : ℕ) (next head : ℕ → ℕ) (live : ℕ → Bool)
    (lists : ℕ → List ℕ) : Prop where
  /-- The slots in use are those listed. -/
  kept : Kept rows size used count lists
  /-- The list of a row in use is threaded from its head. -/
  chain : ∀ d < rows,live d=true → Chain next size stop (head d) (lists d)
  free : ∀ d < rows,live d=false → lists d=[]

section Threaded

variable {stop count count' d : ℕ} {used used' live live' : ℕ → Bool} {next next' head head' : ℕ → ℕ}

/-- The last slot of a part of a list, or the index that names none. -/
def behind (stop : ℕ) (pre : List ℕ) : ℕ := pre.getLast?.getD stop

@[simp] theorem behind_nil : behind stop []=stop := rfl

@[simp] theorem behind_concat {pre : List ℕ} {p : ℕ} : behind stop (pre++[p])=p := by simp [behind]

variable {pre post rest : List ℕ} {start x i : ℕ}

/-- The place behind a part of a list is linked to the rest of it. -/
theorem behind_link (hs : size ≤ stop) (h : Chain next size stop start (pre++post)) :
    (if behind stop pre=stop then start else next (behind stop pre))=post.head?.getD stop := by
  rcases eq_nil_or_concat' pre with rfl|⟨front,p,rfl⟩
  · rw [behind_nil,if_pos rfl]
    exact h.head_eq
  have hp : p≠stop := ((Path.lt h (by simp)).trans_le hs).ne
  rw [append_assoc,singleton_append] at h
  obtain ⟨b,-,hb⟩ := path_append.1 h
  rw [behind_concat,if_neg hp]
  exact Chain.head_eq hb.2.2

variable (h : Threaded rows size stop used count next head live ls)
include h

theorem Threaded.rethread (hd : d < rows)
    (hl : ∀ k,k≠d → live' k=live k) (hh : ∀ k,k≠d → head' k=head k) (hd' : live' d) {l : List ℕ}
    (hkp : Kept rows size used' count' (update ls d l)) (hchain : Chain next' size stop (head' d) l)
    (ho : ∀ i,i∉ls d → used i → next' i=next i) : Threaded rows size stop used' count' next' head' live' (update ls d l) := by
  refine ⟨hkp,fun k hk huk => ?_,fun k hk hfk => ?_⟩
  · by_cases hkd : k=d
    · subst hkd
      rwa [update_self]
    · rw [update_of_ne hkd,hh k hkd]
      rw [hl k hkd] at huk
      refine Path.congr (h.chain k hk huk) fun i hi => ho i (fun hid => ?_) (h.kept.used_of_mem hk hi).2
      exact hkd (h.kept.row_unique hk hd hi hid)
  · have hkd : k≠d := by
      rintro rfl
      rw [hd'] at hfk
      cases hfk
    rw [update_of_ne hkd]
    rw [hl k hkd] at hfk
    exact h.free k hk hfk

/-- A free slot is threaded into the list of a row between two parts of it; the row is in use then, or taken. -/
theorem Threaded.insert (hd : d < rows) (hx : x < size) (hfr : used x=false) (hsp : ls d=pre++post)
    (hc : Chain next size stop start (ls d)) (hlv : ∀ k,k≠d → live' k=live k) (hd' : live' d)
    (hh : ∀ k,k≠d → head' k=head k) (hf : pre=[] → head' d=x) (hr : pre≠[] → head' d=start)
    (hus : ∀ i < size,used' i=update used x true i)
    (hn : ∀ i,used i → i∉pre.getLast? → next' i=next i) (hl : next' x=post.head?.getD stop)
    (hls : ∀ p∈pre.getLast?,next' p=x) :
    Threaded rows size stop used' (count+1) next' head' live' (update ls d (pre++x::post)) := by
  have hin : ∀ i∈ls d,used i := fun i hi => (h.kept.used_of_mem hd hi).2
  have hp : (pre++x::post).Perm (x::ls d) := by
    rw [hsp]
    exact perm_middle
  have hnd := h.kept.nodup_row hd
  refine h.rethread hd hlv hh hd' ((h.kept.insert hd hx hfr hp).congr hus fun _ _ => rfl) ?_ fun i hi hu => ?_
  · rcases eq_nil_or_concat' pre with rfl|⟨front,p,rfl⟩
    · rw [hf rfl]
      have hps : post=ls d := hsp.symm
      rw [hps] at hl ⊢
      exact hc.cons hx (by rw [hl,←hc.head_eq]) fun i hi => hn i (hin i hi) (by simp)
    · rw [append_assoc,singleton_append] at hsp ⊢
      rw [hr (by simp)]
      rw [hsp] at hc hin hnd
      have hpn : p∉front++post := (nodup_cons.1 (nodup_middle.1 hnd)).1
      refine hc.insert hx hl (hls p (by simp)) fun i hi => hn i (hin i ?_) ?_
      · rcases mem_append.1 hi with hi|hi <;> simp [hi]
      · rw [getLast?_concat]
        rintro ⟨⟩
        exact hpn hi
  · refine hn i hu fun hm => hi ?_
    rw [hsp]
    exact mem_append_left _ (mem_of_getLast? hm)

/-- A slot leaves the list of its row, and the one before it is linked to the next. -/
theorem Threaded.remove (hd : d < rows) (hu : live d) (hsp : ls d=pre++x::post)
    (hl : ∀ k,k≠d → live' k=live k) (hd' : live' d) (hh : ∀ k,k≠d → head' k=head k)
    (hf : pre=[] → head' d=next x) (hr : pre≠[] → head' d=head d) (hus : ∀ i < size,used' i=update used x false i)
    (hn : ∀ i,used i → i≠x → i∉pre.getLast? → next' i=next i) (hls : ∀ p∈pre.getLast?,next' p=next x) :
    Threaded rows size stop used' (count-1) next' head' live' (update ls d (pre++post)) := by
  have hin : ∀ i∈ls d,used i := fun i hi => (h.kept.used_of_mem hd hi).2
  have hp : (ls d).Perm (x::(pre++post)) := by
    rw [hsp]
    exact perm_middle
  have hnd := h.kept.nodup_row hd
  have hc := h.chain d hd hu
  refine h.rethread hd hl hh hd' ((h.kept.remove hd hp).congr hus fun _ _ => rfl) ?_ fun i hi hiu => ?_
  · rw [hsp] at hc hin hnd
    have hx : x∉pre++post := (nodup_cons.1 (nodup_middle.1 hnd)).1
    rcases eq_nil_or_concat' pre with rfl|⟨front,p,rfl⟩
    · rw [hf rfl]
      refine Path.congr hc.tail fun i hi => hn i (hin i (mem_cons_of_mem x hi)) ?_ (by simp)
      rintro rfl
      exact hx hi
    rw [hr (by simp)]
    rw [append_assoc,singleton_append] at hc hin hnd ⊢
    have hpn : p∉front++x::post := (nodup_cons.1 (nodup_middle.1 hnd)).1
    refine hc.remove (hls p (by simp)) fun i hi => hn i (hin i ?_) ?_ ?_
    · rcases mem_append.1 hi with hi|hi <;> simp [hi]
    · rintro rfl
      exact hx (by rcases mem_append.1 hi with hi|hi <;> simp [hi])
    · rw [getLast?_concat]
      rintro ⟨⟩
      exact hpn (by rcases mem_append.1 hi with hi|hi <;> simp [hi])
  · refine hn i hiu ?_ fun hm => hi ?_
    · rintro rfl
      exact hi (by rw [hsp]; simp)
    · rw [hsp]
      exact mem_append_left _ (mem_of_getLast? hm)

variable (hs : size ≤ stop)
include hs

/-- A slot is unlinked: the head of its row moves on, or the slot before it inherits its link. -/
theorem Threaded.unlink (hd : d < rows) (hu : live d) (hx : x∈ls d) (hl : ∀ k,live' k=live k) (hh : ∀ k,k≠d → head' k=head k)
    (hus : ∀ i < size,used' i=update used x false i) (hf : head d=x → head' d=next x ∧ ∀ i,used i → i≠x → next' i=next i)
    (hlt : ∀ p,head d≠x → pred? next size x size (head d)=some p → p≠x →
      head' d=head d ∧ next' p=next x ∧ ∀ i,used i → i≠x → i≠p → next' i=next i) :
    Threaded rows size stop used' (count-1) next' head' live' (update ls d ((ls d).erase x)) := by
  have hc := h.chain d hd hu
  have hnd := h.kept.nodup_row hd
  obtain ⟨pre,post,hsp⟩ := append_of_mem hx
  rw [hsp] at hc hnd
  have hxn : x∉pre++post := (nodup_cons.1 (nodup_middle.1 hnd)).1
  have her : (ls d).erase x=pre++post := by
    rw [hsp,erase_append_right _ fun hm => hxn (mem_append_left _ hm),erase_cons_head]
  rw [her]
  rcases eq_nil_or_concat' pre with rfl|⟨front,p,rfl⟩
  · obtain ⟨hnw,hnx⟩ := hf hc.1
    exact h.remove hd hu hsp (fun k _ => hl k) ((hl d).trans hu) hh (fun _ => hnw) (fun hn => absurd rfl hn) hus
      (fun i hi hix _ => hnx i hi hix) nofun
  rw [append_assoc,singleton_append] at hc
  have hpx : p≠x := fun he => hxn (by simp [he])
  have hne : head d≠x := by
    rw [hc.head_eq]
    intro he
    apply hxn
    cases front with
    | nil =>
      have hp : p=x := he
      simp [hp]
    | cons y front =>
      have hy : y=x := he
      simp [hy]
  obtain ⟨hsm,hln,hnx⟩ := hlt p hne (pred?_chain hs hc (hc.length_le hs)) hpx
  refine h.remove hd hu hsp (fun k _ => hl k) ((hl d).trans hu) hh (fun hn => absurd hn (by simp))
    (fun _ => hsm) hus (fun i hi hix hip => hnx i hi hix fun he => hip ?_) fun q hq => ?_
  · rw [he,getLast?_concat]
    rfl
  · rw [getLast?_concat] at hq
    cases hq
    exact hln

/-- A free slot is hung behind the list of a row: it becomes the head, or the last slot found is linked to it. -/
theorem Threaded.hang {mid : ℕ → ℕ}
    (hd : d < rows) (hu : live d) (hx : x < size) (hf : used x=false) (hlv : ∀ k,live' k=live k)
    (hh : ∀ k,k≠d → head' k=head k) (hus : ∀ i < size,used' i=update used x true i) (hmd : ∀ i,i≠x → mid i=next i)
    (hem : size≤head d → head' d=x ∧ next' x=stop ∧ ∀ i,used i → next' i=next i)
    (hb : ∀ p,head d < size → tail? mid size size (head d)=some p → p≠x →
      head' d=head d ∧ next' x=stop ∧ next' p=x ∧ ∀ i,used i → i≠p → next' i=next i) :
    Threaded rows size stop used' (count+1) next' head' live' (update ls d (ls d++[x])) := by
  have hc := h.chain d hd hu
  have hxl : x∉ls d := fun hm => by
    have hux := (h.kept.used_of_mem hd hm).2
    rw [hf] at hux
    cases hux
  have hsp : ls d=ls d++[] := (append_nil _).symm
  rcases eq_nil_or_concat' (ls d) with hnl|⟨front,p,hl⟩
  · obtain ⟨hnw,hln,hnx⟩ := hem ((hc.nil_iff hs).2 hnl)
    exact h.insert hd hx hf hsp hc (fun k _ => hlv k) ((hlv d).trans hu) hh (fun _ => hnw)
      (fun hn => absurd hnl hn) hus (fun i hi _ => hnx i hi) hln fun q hq => by rw [hnl] at hq; cases hq
  have hlt : head d < size := by
    by_contra hge
    have hnl := (hc.nil_iff hs).1 (not_lt.1 hge)
    rw [hl] at hnl
    simp at hnl
  have hcm : Chain mid size stop (head d) (front++[p]) := by
    rw [←hl]
    exact Path.congr hc fun i hi => hmd i fun he => hxl (he ▸ hi)
  have hpx : p≠x := fun he => hxl (by rw [hl,he]; simp)
  obtain ⟨hsm,hln,hp,hnx⟩ := hb p hlt (tail?_chain hs hcm (hcm.length_le hs)) hpx
  have hg : (ls d).getLast?=some p := by rw [hl,getLast?_concat]
  refine h.insert hd hx hf hsp hc (fun k _ => hlv k) ((hlv d).trans hu) hh
    (fun hn => by rw [hl] at hn; simp at hn) (fun _ => hsm) hus (fun i hi hip => hnx i hi fun he => hip ?_) hln
    fun q hq => ?_
  · rw [he,hg]
    rfl
  · rw [hg] at hq
    cases hq
    exact hp

omit hs in
theorem Threaded.close (hd : d < rows) (hl : ∀ k,k≠d → live' k=live k) (hh : ∀ k,k≠d → head' k=head k) (hd' : live' d=false)
    (hu : ∀ i < size,used' i=if i∈ls d then false else used i) (hn : ∀ i,i∉ls d → next' i=next i) :
    Threaded rows size stop used' (count-(ls d).length) next' head' live' (update ls d []) := by
  refine ⟨(h.kept.release hd).congr hu fun _ _ => rfl,fun k hk huk => ?_,fun k hk hfk => ?_⟩
  · have hkd : k≠d := by
      rintro rfl
      rw [hd'] at huk
      cases huk
    rw [update_of_ne hkd,hh k hkd]
    rw [hl k hkd] at huk
    exact Path.congr (h.chain k hk huk) fun i hi => hn i fun hid => hkd (h.kept.row_unique hk hd hi hid)
  · by_cases hkd : k=d
    · rw [hkd,update_self]
    · rw [update_of_ne hkd]
      rw [hl k hkd] at hfk
      exact h.free k hk hfk

omit hs in
/-- Nothing but the links, the use of slots and rows and the heads matters. -/
theorem Threaded.congr (hl : ∀ k,live' k=live k)
    (hh : ∀ k,head' k=head k) (hc : count'=count) (hu : ∀ i < size,used' i=used i) (hn : ∀ i,used i → next' i=next i) :
    Threaded rows size stop used' count' next' head' live' ls := by
  subst hc
  refine ⟨h.kept.congr hu fun _ _ => rfl,fun k hk huk => ?_,fun k hk hfk => ?_⟩
  · rw [hh]
    rw [hl] at huk
    exact Path.congr (h.chain k hk huk) fun i hi => hn i (h.kept.used_of_mem hk hi).2
  · rw [hl] at hfk
    exact h.free k hk hfk

theorem Threaded.walk (hd : d < rows) (hu : live d) : walk next size size (head d)=ls d := by
  have hc := h.chain d hd hu
  exact walk_chain hs hc (hc.length_le hs)

omit hs in
theorem Threaded.next_eq (hd : d < rows) (hu : live d) (hl : ls d=pre++i::post) : next i=post.head?.getD stop := by
  have hc := h.chain d hd hu
  rw [hl] at hc
  obtain ⟨b,-,hb⟩ := path_append.1 hc
  exact Chain.head_eq hb.2.2

theorem Threaded.ne_stop (hd : d < rows) (hi : i∈ls d) : i≠stop := ((h.kept.used_of_mem hd hi).1.trans_le hs).ne

theorem Threaded.behind_ne (hd : d < rows) (hl : ls d=pre++i::post) : behind stop pre≠i := by
  have hnd := h.kept.nodup_row hd
  have hi := h.ne_stop hs hd (show i∈ls d by rw [hl]; simp)
  rw [hl] at hnd
  rcases eq_nil_or_concat' pre with rfl|⟨pre,p,rfl⟩
  · exact hi.symm
  rw [behind_concat]
  rintro rfl
  exact (nodup_cons.1 (nodup_middle.1 hnd)).1 (by simp)

/-- The part in front is empty, or its last slot is on the list. -/
theorem Threaded.behind_cases (hd : d < rows) (hl : ls d=pre++rest) : (pre=[] ∧ behind stop pre=stop) ∨
      (pre≠[] ∧ behind stop pre∈ls d ∧ behind stop pre≠stop ∧ pre.getLast?=some (behind stop pre)) := by
  rcases eq_nil_or_concat' pre with rfl|⟨front,p,rfl⟩
  · exact .inl ⟨rfl,rfl⟩
  have hp : p∈ls d := by
    rw [hl]
    simp
  rw [behind_concat]
  exact .inr ⟨by simp,hp,h.ne_stop hs hd hp,getLast?_concat⟩

/-- No free slot stands before a place of the list. -/
theorem Threaded.behind_ne_free (hd : d < rows) (hl : ls d=pre++rest)
    (hx : x < size) (hf : used x=false) : behind stop pre≠x := by
  rintro rfl
  rcases h.behind_cases hs hd hl with ⟨-,hst⟩|⟨-,hm,-⟩
  · rw [hst] at hx
    exact absurd hs (not_le.2 hx)
  · rw [(h.kept.used_of_mem hd hm).2] at hf
    cases hf

/-- A slot is cut out of a list by whoever knows the slot before it. -/
theorem Threaded.cutOut (hd : d < rows) (hu : live d) (hl : ls d=pre++x::post) (hlv : ∀ k,live' k=live k)
    (hh : ∀ k,k≠d → head' k=head k) (hf : head' d=if behind stop pre=stop then next x else head d)
    (hus : ∀ i < size,used' i=update used x false i)
    (hn : ∀ i,i≠x → next' i=if i=behind stop pre ∧ behind stop pre≠stop then next x else next i) :
    Threaded rows size stop used' (count-1) next' head' live' (update ls d (pre++post)) := by
  have hne := h.behind_ne hs hd hl
  refine h.remove hd hu hl (fun k _ => hlv k) ((hlv d).trans hu) hh ?_ ?_ hus ?_ ?_
  all_goals rcases h.behind_cases hs hd hl with ⟨hnl,hst⟩|⟨hc,-,hst,hls⟩
  · exact fun _ => by rw [hf,if_pos hst]
  · exact fun hnl => absurd hnl hc
  · exact fun hc => absurd hnl hc
  · exact fun _ => by rw [hf,if_neg hst]
  · exact fun i _ hix _ => by rw [hn i hix,if_neg fun hi => hi.2 hst]
  · refine fun i _ hix hi => (hn i hix).trans (if_neg fun hib => hi ?_)
    rw [hls,hib.1]
    rfl
  · rw [hnl]
    exact nofun
  · rw [hls]
    rintro p ⟨⟩
    rw [hn _ hne,if_pos ⟨rfl,hst⟩]

/-- A free slot is put into a list by whoever knows the slot before its place; the row is in use then, or taken. -/
theorem Threaded.putIn (hd : d < rows) (hl : ls d=pre++post) (hch : Chain next size stop start (ls d)) (hx : x < size)
    (hfr : used x=false) (hlv : ∀ k,k≠d → live' k=live k) (hd' : live' d) (hh : ∀ k,k≠d → head' k=head k)
    (hf : head' d=if behind stop pre=stop then x else start) (hu : ∀ i < size,used' i=update used x true i)
    (hn : ∀ i,i≠x → next' i=if i=behind stop pre ∧ behind stop pre≠stop then x else next i)
    (hln : next' x=post.head?.getD stop) :
    Threaded rows size stop used' (count+1) next' head' live' (update ls d (pre++x::post)) := by
  have hin : ∀ i,used i → i≠x := by
    rintro i hi rfl
    rw [hfr] at hi
    cases hi
  refine h.insert hd hx hfr hl hch hlv hd' hh ?_ ?_ hu ?_ hln ?_
  all_goals rcases h.behind_cases hs hd hl with ⟨hnl,hst⟩|⟨hc,hm,hst,hls⟩
  · exact fun _ => by rw [hf,if_pos hst]
  · exact fun hnl => absurd hnl hc
  · exact fun hc => absurd hnl hc
  · exact fun _ => by rw [hf,if_neg hst]
  · exact fun i hi _ => by rw [hn i (hin i hi),if_neg fun hib => hib.2 hst]
  · refine fun i hi hil => (hn i (hin i hi)).trans (if_neg fun hib => hil ?_)
    rw [hls,hib.1]
    rfl
  · rw [hnl]
    exact nofun
  · rw [hls]
    rintro p ⟨⟩
    rw [hn _ (hin _ (h.kept.used_of_mem hd hm).2),if_pos ⟨rfl,hst⟩]

end Threaded

section Passes

variable {σ γ : Type*} {stop : ℕ}

/-- A walk down a list that may put other slots in the place of each and says which stands before the next. -/
def pass (stop : ℕ) (next : σ → ℕ → ℕ) (body : σ → ℕ → ℕ → σ×Option ℕ) : ℕ → σ → ℕ → ℕ → σ×Bool
  | 0,s,_,_ => (s,true)
  | fuel+1,s,prev,i =>
    if i=stop then (s,true)
    else match (body s prev i).2 with
      | none => ((body s prev i).1,false)
      | some p => pass stop next body fuel (body s prev i).1 p (next s i)

/-- A pass does to the spans of a list what each step does to one, when a step keeps what the next needs. -/
theorem pass_spec {next : σ → ℕ → ℕ} {body : σ → ℕ → ℕ → σ×Option ℕ} {inv : σ → List ℕ → List ℕ → Prop} (span : σ → ℕ → γ)
    (part : γ → List γ) (hb : ∀ s pre i rest,inv s pre (i::rest) → i≠stop ∧ next s i=rest.head?.getD stop ∧
      ∃ t mid,body s (behind stop pre) i=(t,some (behind stop (pre++mid))) ∧ mid.map (span t)=part (span s i) ∧
        (∀ k∈pre++rest,span t k=span s k) ∧ inv t (pre++mid) rest)
    {rest pre : List ℕ} {fuel : ℕ} {s : σ} (hf : rest.length<fuel) (h : inv s pre rest) :
    ∃ u l,pass stop next body fuel s (behind stop pre) (rest.head?.getD stop)=(u,true) ∧ inv u (pre++l) [] ∧
      l.map (span u)=(rest.map (span s)).flatMap part ∧ ∀ k∈pre,span u k=span s k := by
  induction rest generalizing s pre fuel with
  | nil =>
    obtain ⟨fuel,rfl⟩ := Nat.exists_eq_succ_of_ne_zero (Nat.ne_of_gt hf)
    refine ⟨s,[],?_,by rwa [append_nil],rfl,fun k _ => rfl⟩
    exact if_pos rfl
  | cons i rest ih =>
    obtain ⟨fuel,rfl⟩ := Nat.exists_eq_succ_of_ne_zero (Nat.ne_of_gt (Nat.zero_lt_of_lt hf))
    obtain ⟨hi,hn,t,mid,hst,hm,hkp,ht⟩ := hb s pre i rest h
    obtain ⟨u,l,hl,hu,hsp,hkeep'⟩ := ih (Nat.lt_of_succ_lt_succ hf) ht
    refine ⟨u,mid++l,?_,by rwa [←append_assoc],?_,fun k hk => ?_⟩
    · rw [head?_cons,Option.getD_some]
      unfold pass
      rw [if_neg hi,hst,hn]
      exact hl
    · have hmid' : mid.map (span u)=mid.map (span t) := map_congr_left fun k hk => hkeep' k (by simp [hk])
      have hr : rest.map (span t)=rest.map (span s) := map_congr_left fun k hk => hkp k (by simp [hk])
      rw [map_append,hmid',hm,hsp,hr,map_cons,flatMap_cons]
    · exact (hkeep' k (by simp [hk])).trans (hkp k (by simp [hk]))

end Passes

end IdemIp.Slots
