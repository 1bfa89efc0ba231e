import Mathlib.Data.List.Pairwise
import Mathlib.Algebra.Ring.Nat
import Mathlib.Order.Interval.Finset.Nat
import Mathlib.Tactic.Tauto

/-!
# Pieces of a message and what they leave missing, RFC 815

The spans still missing of a message, in order and apart, and beside them the
pieces that came, of a message whose end is known once the last one did. A piece
is cut out of every span it reaches; filing one that agrees with the others keeps
the spans just the octets that no piece holds.
-/

namespace IdemIp.Gaps

open List

/-- A span of octets, both ends missing. -/
structure Gap where
  (first last : ℕ)

/-- An octet of a span. -/
def Gap.Has (g : Gap) (x : ℕ) : Prop := g.first≤x ∧ x≤g.last

/-- What is left of a span around a piece; nothing is missing behind a piece no other follows. -/
def Gap.cut (first end_ : ℕ) (more : Bool) (g : Gap) : List Gap :=
  if g.last<first ∨ end_≤g.first then [g]
  else
    (if g.first<first then [⟨g.first,first-1⟩] else [])++if end_≤g.last ∧ more=true then [⟨end_,g.last⟩] else []

/-- What is left of a span in front of an end. -/
def Gap.clip (end_ : ℕ) (g : Gap) : List Gap :=
  if end_≤g.first then [] else [⟨g.first,if end_≤g.last then end_-1 else g.last⟩]

/-- Cut a piece out of all spans. -/
def cut (first end_ : ℕ) (more : Bool) (l : List Gap) : List Gap := l.flatMap (Gap.cut first end_ more)

/-- End all spans at an end. -/
def clip (end_ : ℕ) (l : List Gap) : List Gap := l.flatMap (Gap.clip end_)

/-- What is missing after a piece: the last one ends the message. -/
def take (first end_ : ℕ) (more : Bool) (l : List Gap) : List Gap :=
  if more then cut first end_ more l else clip end_ (cut first end_ more l)

def Missing (l : List Gap) (x : ℕ) : Prop := ∃ g∈l,g.Has x

/-- Spans in order, apart, and none of them empty. -/
structure Apart (l : List Gap) : Prop where
  order : l.Pairwise fun g h => g.last<h.first
  filled : ∀ g∈l,g.first≤g.last

theorem apart_cons {g : Gap} {l : List Gap} : Apart (g::l) ↔ (∀ h∈l,g.last<h.first) ∧ g.first≤g.last ∧ Apart l := by
  constructor
  · intro h
    have hp := pairwise_cons.1 h.order
    exact ⟨hp.1,h.filled g mem_cons_self,hp.2,fun k hk => h.filled k (mem_cons_of_mem g hk)⟩
  · rintro ⟨hg,hf,hl⟩
    refine ⟨pairwise_cons.2 ⟨hg,hl.order⟩,fun k hk => ?_⟩
    rcases mem_cons.1 hk with rfl|hk
    · exact hf
    · exact hl.filled k hk

section Pieces

variable {first end_ : ℕ} {more : Bool} {g : Gap}

theorem Gap.mem_cut {h : Gap} (hh : h∈g.cut first end_ more) (hf : g.first≤g.last) :
    g.first≤h.first ∧ h.last≤g.last ∧ h.first≤h.last := by
  unfold Gap.cut at hh
  split_ifs at hh with h1 h2 h3 h3 <;> simp at hh
  · subst hh
    exact ⟨le_rfl,le_rfl,hf⟩
  · rcases hh with rfl|rfl
    · dsimp only
      omega
    · dsimp only
      omega
  · subst hh
    dsimp only
    omega
  · subst hh
    dsimp only
    omega

theorem Gap.cut_apart (hle : first≤end_) (hf : g.first≤g.last) : Apart (g.cut first end_ more) := by
  refine ⟨?_,fun h hh => (Gap.mem_cut hh hf).2.2⟩
  unfold Gap.cut
  split_ifs <;> simp
  omega

/-- A span lasts outside the piece, and its rest behind the last piece goes. -/
theorem Gap.missing_cut {x : ℕ} : Missing (g.cut first end_ more) x ↔
      g.Has x ∧ (g.last<first ∨ end_≤g.first ∨ x<first ∨ end_≤x ∧ more) := by
  unfold Gap.cut Missing
  cases more with
  | true =>
    simp only [and_true]
    split_ifs with h1 h2 h3 h3 <;> simp [Gap.Has] <;> omega
  | false =>
    simp only [Bool.false_eq_true,and_false,if_false,or_false]
    split_ifs with h1 h2 <;> simp [Gap.Has] <;> omega

theorem Gap.length_cut (g : Gap) (first end_ : ℕ) (more : Bool) : (g.cut first end_ more).length≤2 ∧
    ((g.cut first end_ more).length=2 → g.first<first ∧ end_≤g.last) := by
  unfold Gap.cut
  split_ifs <;> simp
  omega

theorem Gap.missing_clip (x : ℕ) : Missing (g.clip end_) x ↔ g.Has x ∧ x<end_ := by
  unfold Gap.clip Missing
  split_ifs with h1 h2 <;> simp [Gap.Has] <;> omega

theorem Gap.mem_clip {h : Gap} (hh : h∈g.clip end_) (hf : g.first≤g.last) :
    h.first=g.first ∧ h.last≤g.last ∧ h.first≤h.last := by
  unfold Gap.clip at hh
  split_ifs at hh with h1 h2
  · cases hh
  · simp only [mem_singleton] at hh
    subst hh
    dsimp only
    omega
  · simp only [mem_singleton] at hh
    subst hh
    exact ⟨rfl,le_rfl,hf⟩

end Pieces

variable {first end_ : ℕ} {more : Bool} {l : List Gap}

theorem Apart.flatMap {f : Gap → List Gap} (h : Apart l) (hf : ∀ g∈l,Apart (f g))
    (hin : ∀ g∈l,∀ k∈f g,g.first≤k.first ∧ k.last≤g.last) : Apart (l.flatMap f) := by
  induction l with
  | nil => exact ⟨List.Pairwise.nil,nofun⟩
  | cons g l ih =>
    obtain ⟨hg,-,hl⟩ := apart_cons.1 h
    have hr := ih hl (fun k hk => hf k (mem_cons_of_mem g hk)) fun k hk => hin k (mem_cons_of_mem g hk)
    have hh := hf g mem_cons_self
    rw [flatMap_cons]
    refine ⟨pairwise_append.2 ⟨hh.order,hr.order,fun a ha b hb => ?_⟩,fun k hk => ?_⟩
    · obtain ⟨k,hk,hbk⟩ := mem_flatMap.1 hb
      have hin1 := hin g mem_cons_self a ha
      have hin2 := hin k (mem_cons_of_mem g hk) b hbk
      have hlt := hg k hk
      omega
    · rcases mem_append.1 hk with hk|hk
      · exact hh.filled k hk
      · exact hr.filled k hk

theorem Apart.cut (h : Apart l) (hle : first≤end_) : Apart (cut first end_ more l) :=
  h.flatMap (fun g hg => Gap.cut_apart hle (h.filled g hg)) fun g hg _ hk =>
    have hin := Gap.mem_cut hk (h.filled g hg)
    ⟨hin.1,hin.2.1⟩

theorem Apart.clip (h : Apart l) : Apart (clip end_ l) := by
  refine h.flatMap (fun g hg => ⟨?_,fun k hk => (Gap.mem_clip hk (h.filled g hg)).2.2⟩) fun g hg k hk => ?_
  · unfold Gap.clip
    split_ifs <;> simp
  · have hin := Gap.mem_clip hk (h.filled g hg)
    exact ⟨Nat.le_of_eq hin.1.symm,hin.2.1⟩

theorem Apart.take (h : Apart l) (hle : first≤end_) : Apart (take first end_ more l) := by
  unfold Gaps.take
  split_ifs
  · exact h.cut hle
  · exact (h.cut hle).clip

theorem missing_flatMap {f : Gap → List Gap} (x : ℕ) : Missing (l.flatMap f) x ↔ ∃ g∈l,Missing (f g) x := by
  simp only [Missing,mem_flatMap]
  constructor
  · rintro ⟨k,⟨g,hg,hk⟩,hx⟩
    exact ⟨g,hg,k,hk,hx⟩
  · rintro ⟨g,hg,k,hk,hx⟩
    exact ⟨k,⟨g,hg,hk⟩,hx⟩

/-- After a piece what it holds is not missing, and behind the last piece nothing is. -/
theorem missing_take (hle : first≤end_) {x : ℕ} :
    Missing (take first end_ more l) x ↔ Missing l x ∧ (x<first ∨ end_≤x ∧ more) := by
  unfold take
  cases more with
  | true =>
    rw [if_pos rfl,cut,missing_flatMap]
    simp only [Gap.missing_cut]
    constructor
    · rintro ⟨g,hg,hx,hc⟩
      refine ⟨⟨g,hg,hx⟩,?_⟩
      unfold Gap.Has at hx
      simp only [and_true] at hc ⊢
      omega
    · rintro ⟨⟨g,hg,hx⟩,hc⟩
      exact ⟨g,hg,hx,.inr (.inr hc)⟩
  | false =>
    rw [if_neg nofun,clip,missing_flatMap]
    simp only [Gap.missing_clip]
    constructor
    · rintro ⟨k,hk,hx,hlt⟩
      obtain ⟨g,hg,hkg⟩ := mem_flatMap.1 hk
      have hct := (Gap.missing_cut).1 ⟨k,hkg,hx⟩
      refine ⟨⟨g,hg,hct.1⟩,.inl ?_⟩
      have hh := hct.1
      unfold Gap.Has at hh
      have hc := hct.2
      omega
    · rintro ⟨⟨g,hg,hx⟩,hc⟩
      have hlt : x<first := by simpa using hc
      have hl : Missing (g.cut first end_ false) x := (Gap.missing_cut).2 ⟨hx,.inr (.inr (.inl hlt))⟩
      obtain ⟨k,hk,hkx⟩ := hl
      exact ⟨k,mem_flatMap.2 ⟨g,hg,hk⟩,hkx,by omega⟩

theorem Apart.nil_iff (h : Apart l) : l=[] ↔ ∀ x,¬Missing l x := by
  constructor
  · rintro rfl x ⟨g,hg,-⟩
    cases hg
  · intro hno
    cases l with
    | nil => rfl
    | cons g l => exact absurd ⟨g,mem_cons_self,le_rfl,h.filled g mem_cons_self⟩ (hno g.first)

/-- A piece is the last one missing exactly when every span lies inside it, or behind the start of the last piece. -/
theorem Apart.take_nil_iff (h : Apart l) (hle : first≤end_) :
    Gaps.take first end_ more l=[] ↔ ∀ g∈l,first≤g.first ∧ (more → g.last<end_) := by
  rw [(h.take hle).nil_iff]
  constructor
  · intro hno g hg
    have hf := h.filled g hg
    have hfr := hno g.first
    have hl := hno g.last
    rw [missing_take hle] at hfr hl
    have hin : Missing l g.first := ⟨g,hg,le_rfl,hf⟩
    have hin' : Missing l g.last := ⟨g,hg,hf,le_rfl⟩
    refine ⟨?_,fun hm => ?_⟩
    · by_contra hlt
      exact hfr ⟨hin,.inl (by omega)⟩
    · by_contra hlt
      exact hl ⟨hin',.inr ⟨by omega,hm⟩⟩
  · intro ha x hx
    obtain ⟨⟨g,hg,hxg⟩,hc⟩ := (missing_take hle).1 hx
    have hg' := ha g hg
    unfold Gap.Has at hxg
    rcases hc with hlt|⟨hge,hm⟩
    · omega
    · have hl := hg'.2 hm
      omega

theorem Apart.beyond {g : Gap} (h : Apart (g::l)) (hin : end_≤g.last) : ∀ k∈l,end_≤k.first := by
  intro k hk
  have hlt := (apart_cons.1 h).1 k hk
  omega

theorem cut_of_beyond (h : ∀ g∈l,end_≤g.first) : cut first end_ more l=l := by
  induction l with
  | nil => rfl
  | cons g l ih =>
    have hg : g.cut first end_ more=[g] := if_pos (.inr (h g mem_cons_self))
    have hr := ih fun k hk => h k (mem_cons_of_mem g hk)
    unfold cut at hr ⊢
    rw [flatMap_cons,hg,hr]
    rfl

theorem Apart.length_cut (h : Apart l) : (Gaps.cut first end_ more l).length≤l.length+1 := by
  induction l with
  | nil => exact Nat.zero_le _
  | cons g l ih =>
    have hl := Gap.length_cut g first end_ more
    have hrest := ih (apart_cons.1 h).2.2
    have hs : Gaps.cut first end_ more (g::l)=g.cut first end_ more++Gaps.cut first end_ more l := rfl
    rw [hs,length_append,length_cons]
    by_cases ht : (g.cut first end_ more).length=2
    · rw [cut_of_beyond (h.beyond (hl.2 ht).2)]
      omega
    · omega

theorem length_clip : (clip end_ l).length≤l.length := by
  induction l with
  | nil => exact le_rfl
  | cons g l ih =>
    have hs : clip end_ (g::l)=g.clip end_++clip end_ l := rfl
    have hone : (g.clip end_).length≤1 := by
      unfold Gap.clip
      split_ifs <;> simp
    rw [hs,length_append,length_cons]
    omega

theorem Apart.length_take (h : Apart l) (first end_ : ℕ) (more : Bool) : (Gaps.take first end_ more l).length≤l.length+1 := by
  unfold Gaps.take
  split_ifs
  · exact h.length_cut
  · exact Nat.le_trans length_clip h.length_cut

theorem clip_of_before (h : ∀ g∈l,g.first≤g.last ∧ g.last<end_) : clip end_ l=l := by
  induction l with
  | nil => rfl
  | cons g l ih =>
    have hg := h g mem_cons_self
    have ho : g.clip end_=[g] := by
      unfold Gap.clip
      rw [if_neg (by omega),if_neg (by omega)]
    have hr := ih fun k hk => h k (mem_cons_of_mem g hk)
    unfold clip at hr ⊢
    rw [flatMap_cons,ho,hr]
    rfl

section Wide

/-- Spans with a held octet between any two. -/
def Wide (l : List Gap) : Prop := l.Pairwise fun g h => g.last+1<h.first

/-- A piece that is not empty leaves a held octet between the spans it makes. -/
theorem Wide.cut (h : Wide l) (hf : ∀ g∈l,g.first≤g.last) (hlt : first<end_) : Wide (Gaps.cut first end_ more l) := by
  refine pairwise_flatMap.2 ⟨fun g hg => ?_,h.imp_of_mem fun {g k} hg hk hgk x hx y hy => ?_⟩
  · unfold Gap.cut
    split_ifs <;> simp
    omega
  · have hx' := Gap.mem_cut hx (hf g hg)
    have hy' := Gap.mem_cut hy (hf k hk)
    omega

theorem Wide.split (h : Wide l) {g k : Gap} (hg : g∈l) (hk : k∈l) : g=k ∨ g.last+1<k.first ∨ k.last+1<g.first := by
  induction l with
  | nil => cases hg
  | cons a l ih =>
    have hp := pairwise_cons.1 h
    rcases mem_cons.1 hg with rfl|hgl
    · rcases mem_cons.1 hk with rfl|hkl
      · exact .inl rfl
      · exact .inr (.inl (hp.1 k hkl))
    rcases mem_cons.1 hk with rfl|hkl
    · exact .inr (.inr (hp.1 g hgl))
    · exact ih hp.2 hgl hkl

end Wide

section Filled

/-- Octets of a span that a piece holds. -/
def Gap.overlap (first last : ℕ) (g : Gap) : ℕ :=
  let lo := max first g.first
  let hi := min last g.last
  if lo≤hi then hi-lo+1 else 0

/-- Octets a piece holds of all spans. -/
def filled (first last : ℕ) (l : List Gap) : ℕ := (l.map (Gap.overlap first last)).sum

theorem Gap.overlap_card (first last : ℕ) (g : Gap) :
    g.overlap first last=((Finset.Icc first last).filter fun x => g.first≤x ∧ x≤g.last).card := by
  have hs : ((Finset.Icc first last).filter fun x => g.first≤x ∧ x≤g.last)=
      Finset.Icc (max first g.first) (min last g.last) := by
    ext x
    simp only [Finset.mem_filter,Finset.mem_Icc,sup_le_iff,le_inf_iff]
    tauto
  rw [hs,Nat.card_Icc]
  unfold Gap.overlap
  dsimp only
  split_ifs <;> omega

open scoped Classical in
theorem Apart.filled_card (h : Apart l) (first last : ℕ) :
    Gaps.filled first last l=((Finset.Icc first last).filter (Missing l)).card := by
  induction l with
  | nil =>
    have hn : (Finset.Icc first last).filter (Missing [])=∅ :=
      Finset.filter_eq_empty_iff.2 fun x _ ⟨g,hg,_⟩ => not_mem_nil hg
    rw [hn]
    rfl
  | cons g l ih =>
    obtain ⟨hg,-,hl⟩ := apart_cons.1 h
    have hs : (Finset.Icc first last).filter (Missing (g::l))=
        ((Finset.Icc first last).filter fun x => g.first≤x ∧ x≤g.last)∪(Finset.Icc first last).filter (Missing l) := by
      ext x
      simp only [Finset.mem_filter,Finset.mem_union,Missing,mem_cons,exists_eq_or_imp,Gap.Has]
      tauto
    have hd : Disjoint ((Finset.Icc first last).filter fun x => g.first≤x ∧ x≤g.last)
        ((Finset.Icc first last).filter (Missing l)) := by
      refine Finset.disjoint_left.2 fun x hx hx' => ?_
      obtain ⟨k,hk,hkx⟩ := (Finset.mem_filter.1 hx').2
      have hgx := (Finset.mem_filter.1 hx).2
      have hlt := hg k hk
      unfold Gap.Has at hkx
      omega
    rw [hs,Finset.card_union_of_disjoint hd,←ih hl,←Gap.overlap_card]
    rfl

theorem Apart.filled_all_iff (h : Apart l) {last : ℕ} :
    Gaps.filled first last l=last+1-first ↔ ∀ x,first≤x → x≤last → Missing l x := by
  classical
  rw [h.filled_card,←Nat.card_Icc,Finset.card_filter_eq_iff]
  simp only [Finset.mem_Icc,and_imp]

end Filled

end IdemIp.Gaps

namespace IdemIp.Pieces

open List hiding take
open Gaps

/-- A piece of a message, and whether more follow it. -/
structure Piece where
  (first len : ℕ)
  more : Bool
deriving DecidableEq

/-- One past its last octet. -/
def Piece.stop (p : Piece) : ℕ := p.first+p.len

/-- An octet of a piece. -/
def Piece.Has (p : Piece) (x : ℕ) : Prop := p.first≤x ∧ x<p.stop

/-- An octet of one of them. -/
def Held (ps : List Piece) (x : ℕ) : Prop := ∃ p∈ps,p.Has x

/-- Two pieces without a common octet. -/
def Piece.Clear (p q : Piece) : Prop := ∀ x,¬(p.Has x ∧ q.Has x)

/-- One past the last octet there can be: the end of the last piece, or that of the offset space. -/
def bound (top : ℕ) (ps : List Piece) : ℕ := ((ps.find? fun p => !p.more).map Piece.stop).getD (top+1)

/-- The last piece came, and every octet up to its end is held. -/
def Whole (top : ℕ) (ps : List Piece) : Prop := (∃ p∈ps,p.more=false) ∧ ∀ x<bound top ps,Held ps x

theorem Piece.Clear.symm {p q : Piece} (h : p.Clear q) : q.Clear p := fun x hx => h x ⟨hx.2,hx.1⟩

section Bound

variable {top : ℕ} {ps : List Piece}

theorem bound_of_more (h : ∀ p∈ps,p.more) : bound top ps=top+1 := by
  have hn : ps.find? (fun p => !p.more)=none := find?_eq_none.2 fun p hp => by simp [h p hp]
  rw [bound,hn]
  rfl

theorem bound_of_last {n : ℕ} (hex : ∃ p∈ps,p.more=false) (h : ∀ p∈ps,p.more=false → p.stop=n) : bound top ps=n := by
  cases hf : ps.find? (fun p => !p.more) with
  | none =>
    obtain ⟨p,hp,hm⟩ := hex
    have hno := find?_eq_none.1 hf p hp
    simp [hm] at hno
  | some p =>
    have hm : p.more=false := by simpa using find?_some hf
    rw [bound,hf]
    exact h p (mem_of_find?_eq_some hf) hm

end Bound

/-- Pieces in order and apart, that agree on the end, with the spans they leave missing. -/
structure Tiled (top : ℕ) (ps : List Piece) (gs : List Gap) : Prop where
  /-- They stand in the order of where they begin. -/
  order : ps.Pairwise fun p q => p.first≤q.first
  clear : ps.Pairwise Piece.Clear
  /-- The last octet of the offset space is never held. -/
  le_top : ∀ p∈ps,p.stop≤top
  within : ∀ p∈ps,p.stop≤bound top ps
  last : ∀ p∈ps,p.more=false → p.stop=bound top ps
  /-- The spans are in order and apart. -/
  apart : Apart gs
  missing : ∀ x,Missing gs x ↔ x<bound top ps ∧ ¬Held ps x

section Tiled

variable {top : ℕ} {ps pre post : List Piece} {gs : List Gap} {p : Piece}

theorem Tiled.bound_le (h : Tiled top ps gs) : bound top ps≤top+1 := by
  unfold bound
  cases hf : ps.find? (fun p => !p.more) with
  | none => exact le_rfl
  | some p => exact (h.le_top p (mem_of_find?_eq_some hf)).trans (Nat.le_succ top)

theorem Tiled.empty (top : ℕ) : Tiled top [] [⟨0,top⟩] := by
  have hno : ∀ p : Piece,p∉([] : List Piece) := fun p => not_mem_nil
  refine ⟨List.Pairwise.nil,List.Pairwise.nil,fun p hp => (hno p hp).elim,fun p hp => (hno p hp).elim,
    fun p hp => (hno p hp).elim,⟨pairwise_singleton _ _,fun g hg => ?_⟩,fun x => ?_⟩
  · rw [mem_singleton.1 hg]
    exact Nat.zero_le _
  · have hb : bound top []=top+1 := rfl
    rw [hb]
    constructor
    · rintro ⟨g,hg,hx⟩
      rw [mem_singleton.1 hg] at hx
      exact ⟨Nat.lt_succ_of_le hx.2,fun ⟨p,hp,_⟩ => hno p hp⟩
    · rintro ⟨hx,-⟩
      exact ⟨⟨0,top⟩,mem_singleton_self _,Nat.zero_le _,Nat.le_of_lt_succ hx⟩

theorem Tiled.nil_iff (h : Tiled top ps gs) : gs=[] ↔ Whole top ps := by
  rw [h.apart.nil_iff]
  constructor
  · intro hno
    have ha : ∀ x<bound top ps,Held ps x := by
      intro x hx
      by_contra hh
      exact hno x ((h.missing x).2 ⟨hx,hh⟩)
    refine ⟨?_,ha⟩
    by_contra hl
    have hb : bound top ps=top+1 := by
      refine bound_of_more fun p hp => ?_
      by_contra hm
      exact hl ⟨p,hp,by simpa using hm⟩
    obtain ⟨p,hp,hx⟩ := ha top (by omega)
    have hle := h.le_top p hp
    have hlt := hx.2
    omega
  · rintro ⟨-,ha⟩ x hx
    obtain ⟨hlt,hno⟩ := (h.missing x).1 hx
    exact hno (ha x hlt)

theorem held_insert {x : ℕ} : Held (pre++p::post) x ↔ p.Has x ∨ Held (pre++post) x := by
  constructor
  · rintro ⟨q,hq,hx⟩
    rcases mem_append.1 hq with hq|hq
    · exact .inr ⟨q,mem_append_left _ hq,hx⟩
    rcases mem_cons.1 hq with rfl|hq
    · exact .inl hx
    · exact .inr ⟨q,mem_append_right _ hq,hx⟩
  · rintro (hx | ⟨q,hq,hx⟩)
    · exact ⟨p,mem_append_right _ mem_cons_self,hx⟩
    · rcases mem_append.1 hq with hq|hq
      · exact ⟨q,mem_append_left _ hq,hx⟩
      · exact ⟨q,mem_append_right _ (mem_cons_of_mem p hq),hx⟩

/-- A piece that agrees with those held on where the message ends. -/
structure Agrees (top : ℕ) (ps : List Piece) (p : Piece) : Prop where
  clear : ∀ q∈ps,p.Clear q
  le_top : p.stop≤top
  /-- It does not go beyond the end. -/
  within : p.stop≤bound top ps
  /-- A last piece does not end before what is held, and ends where others say. -/
  last : p.more=false → (∀ q∈ps,q.stop≤p.stop) ∧ ((∃ q∈ps,q.more=false) → p.stop=bound top ps)

theorem Tiled.bound_insert (h : Tiled top (pre++post) gs) (ha : Agrees top (pre++post) p) :
    bound top (pre++p::post)=if p.more then bound top (pre++post) else p.stop := by
  have hmm : ∀ q,q∈pre++p::post ↔ q=p ∨ q∈pre++post := by
    intro q
    simp only [mem_append,mem_cons]
    tauto
  cases hm : p.more with
  | true =>
    rw [if_pos rfl]
    by_cases hex : ∃ q∈pre++post,q.more=false
    · obtain ⟨q,hq,hqm⟩ := hex
      refine bound_of_last ⟨q,(hmm q).2 (.inr hq),hqm⟩ fun r hr hrm => ?_
      rcases (hmm r).1 hr with rfl|hr
      · rw [hm] at hrm
        cases hrm
      · exact h.last r hr hrm
    have hmr : ∀ q∈pre++post,q.more := by
      intro q hq
      by_contra hqm
      exact hex ⟨q,hq,by simpa using hqm⟩
    rw [bound_of_more hmr]
    refine bound_of_more fun q hq => ?_
    rcases (hmm q).1 hq with rfl|hq
    · exact hm
    · exact hmr q hq
  | false =>
    rw [if_neg nofun]
    refine bound_of_last ⟨p,(hmm p).2 (.inl rfl),hm⟩ fun q hq hqm => ?_
    rcases (hmm q).1 hq with rfl|hq
    · rfl
    · rw [h.last q hq hqm]
      exact ((ha.last hm).2 ⟨q,hq,hqm⟩).symm

theorem Tiled.file (h : Tiled top (pre++post) gs) (ha : Agrees top (pre++post) p) (hpr : ∀ q∈pre,q.first≤p.first)
    (hps : ∀ q∈post,p.first≤q.first) : Tiled top (pre++p::post) (take p.first p.stop p.more gs) := by
  have hle : p.first≤p.stop := Nat.le_add_right _ _
  have hb := h.bound_insert ha
  have hmm : ∀ q,q∈pre++p::post → q=p ∨ q∈pre++post := by
    intro q hq
    simp only [mem_append,mem_cons] at hq ⊢
    tauto
  have hol : ∀ q∈pre++post,q.stop≤bound top (pre++p::post) := by
    intro q hq
    rw [hb]
    cases hm : p.more with
    | true => exact h.within q hq
    | false => exact (ha.last hm).1 q hq
  have hn : p.stop≤bound top (pre++p::post) := by
    rw [hb]
    split_ifs
    · exact ha.within
    · exact le_rfl
  refine ⟨?_,?_,fun q hq => ?_,fun q hq => ?_,fun q hq hqm => ?_,h.apart.take hle,fun x => ?_⟩
  · have ho := pairwise_append.1 h.order
    refine pairwise_append.2 ⟨ho.1,pairwise_cons.2 ⟨hps,ho.2.1⟩,fun a hin b hb => ?_⟩
    rcases mem_cons.1 hb with rfl|hb
    · exact hpr a hin
    · exact ho.2.2 a hin b hb
  · have ho := pairwise_append.1 h.clear
    refine pairwise_append.2 ⟨ho.1,pairwise_cons.2 ⟨fun q hq => ha.clear q (mem_append_right _ hq),ho.2.1⟩,fun a hin b hb => ?_⟩
    rcases mem_cons.1 hb with rfl|hb
    · exact (ha.clear a (mem_append_left _ hin)).symm
    · exact ho.2.2 a hin b hb
  · rcases hmm q hq with rfl|hq
    · exact ha.le_top
    · exact h.le_top q hq
  · rcases hmm q hq with rfl|hq
    · exact hn
    · exact hol q hq
  · rw [hb]
    rcases hmm q hq with rfl|hq
    · rw [hqm]
      rfl
    cases hm : p.more with
    | true => exact h.last q hq hqm
    | false =>
      rw [h.last q hq hqm]
      exact ((ha.last hm).2 ⟨q,hq,hqm⟩).symm
  · rw [missing_take hle,h.missing x,hb,held_insert]
    have hin := ha.within
    unfold Piece.Has
    cases hm : p.more with
    | true =>
      simp only [if_true,and_true]
      constructor
      · rintro ⟨⟨hx,hno⟩,hot⟩
        exact ⟨hx,fun hor => hor.elim (fun hp => by omega) hno⟩
      · rintro ⟨hx,hno⟩
        refine ⟨⟨hx,fun hh => hno (.inr hh)⟩,?_⟩
        by_contra hot
        exact hno (.inl (by omega))
    | false =>
      simp only [Bool.false_eq_true,if_false,and_false,or_false]
      constructor
      · rintro ⟨⟨hx,hno⟩,hlt⟩
        exact ⟨by omega,fun hor => hor.elim (fun hp => by omega) hno⟩
      · rintro ⟨hx,hno⟩
        have hlt : x<p.first := by
          by_contra hge
          exact hno (.inl (by omega))
        exact ⟨⟨by omega,fun hh => hno (.inr hh)⟩,hlt⟩

/-- A last piece that is not empty leaves no span behind it, as long as spans have a held octet between them. -/
theorem Tiled.not_beyond (h : Tiled top ps gs) (hw : Wide gs) (ha : Agrees top ps p) (hne : 0<p.len) (hm : p.more=false)
    {g : Gap} (hg : g∈gs) : ¬p.stop≤g.first := by
  intro hge
  have hf := h.apart.filled g hg
  obtain ⟨hgb,-⟩ := (h.missing g.first).1 ⟨g,hg,le_rfl,hf⟩
  have hs : p.stop=p.first+p.len := rfl
  -- its last octet is missing, in a span that would have to go on up to the other
  have hin : ¬Held ps (p.stop-1) := by
    rintro ⟨q,hq,hx⟩
    exact ha.clear q hq (p.stop-1) ⟨⟨by omega,by omega⟩,hx⟩
  obtain ⟨k,hk,hkx⟩ := (h.missing (p.stop-1)).2 ⟨by omega,hin⟩
  unfold Gap.Has at hkx
  have hkg : k.last+1<g.first := by
    rcases hw.split hk hg with rfl|hlt|hlt
    · omega
    · exact hlt
    · omega
  have ho : ¬Held ps (k.last+1) := by
    rintro ⟨q,hq,hx⟩
    have hle := (ha.last hm).1 q hq
    have hlt := hx.2
    omega
  obtain ⟨i,hi,hix⟩ := (h.missing (k.last+1)).2 ⟨by omega,ho⟩
  unfold Gap.Has at hix
  rcases hw.split hk hi with rfl|hlt|hlt
  · omega
  · omega
  · omega

theorem Tiled.cut_eq_take (h : Tiled top ps gs) (hw : Wide gs) (ha : Agrees top ps p) (hne : 0<p.len) :
    cut p.first p.stop p.more gs=take p.first p.stop p.more gs := by
  have hs : p.stop=p.first+p.len := rfl
  unfold take
  cases hm : p.more with
  | true => rfl
  | false =>
    rw [if_neg nofun]
    refine (clip_of_before fun k hk => ?_).symm
    obtain ⟨g,hg,hkg⟩ := mem_flatMap.1 hk
    have hf := h.apart.filled g hg
    have hno := h.not_beyond hw ha hne hm hg
    refine ⟨(Gap.mem_cut hkg hf).2.2,?_⟩
    unfold Gap.cut at hkg
    simp only [Bool.false_eq_true,and_false,if_false,append_nil] at hkg
    split_ifs at hkg with h1 h2
    · rw [mem_singleton.1 hkg]
      omega
    · rw [mem_singleton.1 hkg]
      dsimp only
      omega
    · cases hkg

end Tiled

section Tiles

/-- Pieces that follow each other, none of them empty and only the last one without more behind it. -/
def TilesFrom : ℕ → List Piece → Prop
  | _,[] => False
  | x,[p] => p.first=x ∧ 0<p.len ∧ p.more=false
  | x,p::q::ps => p.first=x ∧ 0<p.len ∧ p.more ∧ TilesFrom p.stop (q::ps)

def endOf (ps : List Piece) : ℕ := (ps.getLast?.map Piece.stop).getD 0

/-- What tiles that begin at an octet are. -/
structure Tiles (x : ℕ) (ps : List Piece) : Prop where
  order : ps.Pairwise fun p q => p.stop≤q.first
  filled : ∀ p∈ps,0<p.len
  low : ∀ p∈ps,x≤p.first
  high : ∀ p∈ps,p.stop≤endOf ps
  /-- The last one, and no other, has nothing behind it. -/
  last : ∀ p∈ps,p.more=false → p.stop=endOf ps
  ended : ∃ p∈ps,p.more=false
  cover : ∀ y,x ≤ y → y<endOf ps → Held ps y

theorem TilesFrom.tiles {x : ℕ} {ps : List Piece} (h : TilesFrom x ps) : Tiles x ps := by
  induction ps generalizing x with
  | nil => cases h
  | cons p ps ih =>
    cases ps with
    | nil =>
      obtain ⟨hx,hl,hm⟩ := h
      have he : endOf [p]=p.stop := rfl
      refine ⟨pairwise_singleton _ _,fun q hq => ?_,fun q hq => ?_,fun q hq => ?_,fun q hq _ => ?_,
        ⟨p,mem_singleton_self p,hm⟩,fun y hy hlt => ⟨p,mem_singleton_self p,by omega,hlt⟩⟩
      all_goals rw [mem_singleton.1 hq]
      · exact hl
      · exact hx.ge
      · exact he.ge
      · exact he.symm
    | cons q ps =>
      obtain ⟨hx,hl,hm,hrs⟩ := h
      have ht := ih hrs
      have he : endOf (p::q::ps)=endOf (q::ps) := by
        unfold endOf
        rw [getLast?_cons_cons]
      have hs : p.stop=p.first+p.len := rfl
      have hin : p.stop≤endOf (q::ps) := by
        have hlw := ht.low q mem_cons_self
        have hh := ht.high q mem_cons_self
        have hq : q.stop=q.first+q.len := rfl
        omega
      refine ⟨pairwise_cons.2 ⟨ht.low,ht.order⟩,fun r hr => ?_,fun r hr => ?_,fun r hr => ?_,fun r hr hrm => ?_,?_,
        fun y hy hlt => ?_⟩
      · rcases mem_cons.1 hr with rfl|hr
        · exact hl
        · exact ht.filled r hr
      · rcases mem_cons.1 hr with rfl|hr
        · exact hx.ge
        · have hlw := ht.low r hr
          omega
      · rw [he]
        rcases mem_cons.1 hr with rfl|hr
        · exact hin
        · exact ht.high r hr
      · rw [he]
        rcases mem_cons.1 hr with rfl|hr
        · rw [hm] at hrm
          cases hrm
        · exact ht.last r hr hrm
      · obtain ⟨r,hr,hrm⟩ := ht.ended
        exact ⟨r,mem_cons_of_mem p hr,hrm⟩
      · rw [he] at hlt
        by_cases hlw : y<p.stop
        · exact ⟨p,mem_cons_self,by omega,hlw⟩
        · obtain ⟨r,hr,hry⟩ := ht.cover y (by omega) hlt
          exact ⟨r,mem_cons_of_mem p hr,hry⟩

/-- Tiles that begin at multiples of a unit are multiples of it, but for the last. -/
theorem TilesFrom.dvd {x m : ℕ} {ps : List Piece} (h : TilesFrom x ps) (hm : ∀ p∈ps,m ∣ p.first) :
    ∀ p∈ps,p.more → m ∣ p.len := by
  induction ps generalizing x with
  | nil => cases h
  | cons p ps ih =>
    cases ps with
    | nil =>
      intro q hq hmr
      rw [mem_singleton.1 hq,h.2.2] at hmr
      cases hmr
    | cons q ps =>
      obtain ⟨hx,-,-,hrs⟩ := h
      have hn : q.first=p.stop := by
        cases ps with
        | nil => exact hrs.1
        | cons r ps => exact hrs.1
      intro r hr hmr
      rcases mem_cons.1 hr with rfl|hr
      · have hq := hm q (mem_cons_of_mem r mem_cons_self)
        rw [hn,Piece.stop] at hq
        exact (Nat.dvd_add_right (hm r mem_cons_self)).1 hq
      · exact ih hrs (fun p' hp' => hm p' (mem_cons_of_mem p hp')) r hr hmr

theorem TilesFrom.not_alone {ps : List Piece} (h : TilesFrom 0 ps) (hl : 2≤ps.length) :
    ∀ p∈ps,¬(p.first=0 ∧ p.more=false) := by
  rintro p hp ⟨hz,hm⟩
  cases ps with
  | nil => cases h
  | cons q ps =>
    cases ps with
    | nil =>
      rw [length_singleton] at hl
      omega
    | cons r ps =>
      obtain ⟨-,hps,hmr,hr⟩ := h
      rcases mem_cons.1 hp with rfl|hp
      · rw [hmr] at hm
        cases hm
      have hlw := hr.tiles.low p hp
      have hs : q.stop=q.first+q.len := rfl
      omega

variable {top : ℕ} {ts ps rest : List Piece} {p : Piece}

theorem Tiles.clear (h : Tiles 0 ts) (hp : (ps++rest).Perm ts) : (ps++rest).Pairwise Piece.Clear := by
  have hts : ts.Pairwise Piece.Clear := by
    refine h.order.imp fun {a b} hab x hx => ?_
    have h1 := hx.1.2
    have h2 := hx.2.1
    omega
  exact (hp.pairwise_iff fun {a b} hab => hab.symm).2 hts

theorem Tiles.bound_eq (h : Tiles 0 ts) (hs : ∀ q∈ps,q∈ts) (hex : ∃ q∈ps,q.more=false) : bound top ps=endOf ts :=
  bound_of_last hex fun q hq hm => h.last q (hs q hq) hm

theorem Tiles.agrees (h : Tiles 0 ts) (hpr : (ps++p::rest).Perm ts) (ht : endOf ts≤top) : Agrees top ps p := by
  have hs : ∀ q∈ps,q∈ts := fun q hq => hpr.subset (mem_append_left _ hq)
  have hp : p∈ts := hpr.subset (mem_append_right _ mem_cons_self)
  have hh := h.high p hp
  have hc := pairwise_append.1 (h.clear hpr)
  refine ⟨fun q hq => (hc.2.2 q hq p mem_cons_self).symm,by omega,?_,fun hm => ⟨fun q hq => ?_,fun hex => ?_⟩⟩
  · by_cases hex : ∃ q∈ps,q.more=false
    · rw [h.bound_eq hs hex]
      exact hh
    · have hmr : ∀ q∈ps,q.more := by
        intro q hq
        by_contra hno
        exact hex ⟨q,hq,by simpa using hno⟩
      rw [bound_of_more hmr]
      omega
  · rw [h.last p hp hm]
    exact h.high q (hs q hq)
  · rw [h.last p hp hm,h.bound_eq hs hex]

theorem Tiles.whole_iff (h : Tiles 0 ts) (hpr : (ps++rest).Perm ts) : Whole top ps ↔ rest=[] := by
  have hs : ∀ q∈ps,q∈ts := fun q hq => hpr.subset (mem_append_left _ hq)
  constructor
  · rintro ⟨hex,ha⟩
    rw [h.bound_eq hs hex] at ha
    by_contra hne
    obtain ⟨p,hp⟩ := exists_mem_of_ne_nil rest hne
    have hpt : p∈ts := hpr.subset (mem_append_right _ hp)
    have hl := h.filled p hpt
    have hh := h.high p hpt
    have hst : p.stop=p.first+p.len := rfl
    obtain ⟨q,hq,hqx⟩ := ha p.first (by omega)
    exact (pairwise_append.1 (h.clear hpr)).2.2 q hq p hp p.first ⟨hqx,le_rfl,by omega⟩
  · rintro rfl
    rw [append_nil] at hpr
    obtain ⟨q,hq,hqm⟩ := h.ended
    have hex : ∃ q∈ps,q.more=false := ⟨q,hpr.mem_iff.2 hq,hqm⟩
    refine ⟨hex,fun x hx => ?_⟩
    rw [h.bound_eq hs hex] at hx
    obtain ⟨r,hr,hrx⟩ := h.cover x (Nat.zero_le x) hx
    exact ⟨r,hpr.mem_iff.2 hr,hrx⟩

end Tiles

/-- Pieces that follow each other from an octet on; more follow each but the last, which says for itself. -/
def Follow (last : Bool) : ℕ → List Piece → Prop
  | _,[] => False
  | x,[p] => p.first=x ∧ p.more=last
  | x,p::q::ps => p.first=x ∧ p.more ∧ Follow last p.stop (q::ps)

section Follow

variable {last : Bool} {x : ℕ} {ps : List Piece} {p : Piece}

theorem Follow.cons (hx : p.first=x) (hm : p.more) (h : Follow last p.stop ps) : Follow last x (p::ps) := by
  cases ps with
  | nil => cases h
  | cons q ps => exact ⟨hx,hm,h⟩

theorem follow_cons_iff : Follow last x (p::ps) ↔ p.first=x ∧ (ps=[] ∧ p.more=last ∨ p.more ∧ Follow last p.stop ps) := by
  cases ps with
  | nil =>
    refine and_congr_right fun _ => ⟨fun hm => .inl ⟨rfl,hm⟩,fun h => ?_⟩
    rcases h with ⟨-,hm⟩|⟨-,hf⟩
    · exact hm
    · cases hf
  | cons q ps =>
    refine and_congr_right fun _ => ⟨fun h => .inr h,fun h => ?_⟩
    rcases h with ⟨hn,-⟩|h
    · cases hn
    · exact h

theorem Follow.tiles (h : Follow false x ps) (hf : ∀ p∈ps,0<p.len) : TilesFrom x ps := by
  induction ps generalizing x with
  | nil => cases h
  | cons p ps ih =>
    have hp := hf p mem_cons_self
    cases ps with
    | nil => exact ⟨h.1,hp,h.2⟩
    | cons q ps => exact ⟨h.1,hp,h.2.1,ih h.2.2 fun r hr => hf r (mem_cons_of_mem p hr)⟩

/-- They begin at the octet or behind it, and each ends before the next begins. -/
theorem Follow.order (h : Follow last x ps) : (∀ p∈ps,x≤p.first) ∧ ps.Pairwise fun p q => p.stop≤q.first := by
  induction ps generalizing x with
  | nil => cases h
  | cons p ps ih =>
    rcases follow_cons_iff.1 h with ⟨hx,⟨rfl,-⟩|⟨-,hr⟩⟩
    · refine ⟨fun q hq => ?_,pairwise_singleton _ _⟩
      rw [mem_singleton.1 hq]
      exact hx.ge
    obtain ⟨hl,ho⟩ := ih hr
    refine ⟨fun q hq => ?_,pairwise_cons.2 ⟨hl,ho⟩⟩
    rcases mem_cons.1 hq with rfl|hq
    · exact hx.ge
    have hq' := hl q hq
    have hs : p.stop=p.first+p.len := rfl
    omega

theorem Follow.endOf_eq (h : Follow last x ps) : endOf ps=x+(ps.map Piece.len).sum := by
  induction ps generalizing x with
  | nil => cases h
  | cons p ps ih =>
    have hs : p.stop=p.first+p.len := rfl
    cases ps with
    | nil =>
      show p.stop=x+(p.len+0)
      rw [hs,h.1]
      rfl
    | cons q ps =>
      have hr := ih h.2.2
      have he : endOf (p::q::ps)=endOf (q::ps) := by
        unfold endOf
        rw [getLast?_cons_cons]
      rw [he,hr,hs,h.1,map_cons,sum_cons,Nat.add_assoc]
      rfl

end Follow

end IdemIp.Pieces
