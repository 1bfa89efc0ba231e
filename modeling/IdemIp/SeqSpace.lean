import Mathlib.Data.BitVec

/-!
# Distances in a circular number space

Words of `w` bits taken modulo 2^w. A number is located by its distance forward
from an edge, and distances from one edge order the whole circle. Nothing here
depends on a protocol.
-/

namespace IdemIp.SeqSpace

open List BitVec

variable {w : ℕ}

/-- Distance forward from `edge` to `x`. -/
def dist (edge x : BitVec w) : BitVec w := x-edge

variable {edge x : BitVec w}

theorem dist_eq_zero : dist edge x=0 ↔ x=edge := by
  unfold dist
  exact sub_eq_zero

variable {u a n : BitVec w}

/-- A point met before `n` on the way from `u` splits the arc exactly, with no wrap. -/
theorem toNat_dist_of_le (h : dist u a≤dist u n) : (dist a n).toNat+(dist u a).toNat=(dist u n).toNat := by
  have hs : dist a n=dist u n-dist u a := by
    unfold dist
    exact (sub_sub_sub_cancel_right n a u).symm
  rw [hs,toNat_sub_of_le h]
  have hle := le_def.mp h
  omega

/-- A point no farther from `n` than `u` is lies on the way from `u` to `n`. -/
theorem toNat_dist_of_nearer (h : dist a n≤dist u n) : (dist a n).toNat+(dist u a).toNat=(dist u n).toNat := by
  have hs : dist u a=dist u n-dist a n := by
    unfold dist
    exact (sub_sub_sub_cancel_left u a n).symm
  rw [hs,toNat_sub_of_le h]
  have hle := le_def.mp h
  omega

section Order

/-- Where a number lies seen from an edge: ahead of it, or behind it below zero. -/
def pos (edge x : BitVec w) : ℤ := (dist edge x).toInt

/-- Numbers in order seen from an edge. -/
def Ascending (edge : BitVec w) (l : List (BitVec w)) : Prop := l.Pairwise fun x y => pos edge x≤pos edge y

/-- An edge a short way past a number has the number behind it, or stands on it. -/
theorem pos_nonpos (h : 2*(dist x edge).toNat<2^w) : pos edge x≤0 := by
  have hng : dist edge x= -dist x edge := by
    unfold dist
    exact (neg_sub edge x).symm
  have hc := toInt_eq_toNat_cond (dist edge x)
  have hn := toNat_neg (dist x edge)
  rw [←hng] at hn
  have hlt := (dist edge x).isLt
  unfold pos
  generalize 2^w=n at *
  rcases Nat.eq_zero_or_pos (dist x edge).toNat with h0|h0
  · rw [h0,Nat.sub_zero,Nat.mod_self] at hn
    split_ifs at hc <;> omega
  · rw [Nat.mod_eq_of_lt (by omega)] at hn
    split_ifs at hc <;> omega

/-- A number put in front of the first one that is farther forward, with distances unsigned. -/
def place (edge s : BitVec w) : List (BitVec w) → List (BitVec w)
  | [] => [s]
  | x::l => if dist edge s<dist edge x then s::x::l else x::place edge s l

variable {s : BitVec w} {l : List (BitVec w)}

theorem mem_place {y : BitVec w} : y∈place edge s l ↔ y=s ∨ y∈l := by
  induction l with
  | nil => simp [place]
  | cons x l ih =>
    unfold place
    split_ifs
    · simp
    · rw [mem_cons,ih,mem_cons]
      tauto

/-- From a number ahead, what lies behind counts as farther than all that is ahead. -/
theorem dist_lt_iff (h : 0≤pos edge s) : dist edge s<dist edge x ↔ pos edge s<pos edge x ∨ pos edge x<0 := by
  unfold pos at h ⊢
  rw [lt_def]
  have hs := toInt_eq_toNat_cond (dist edge s)
  have hx := toInt_eq_toNat_cond (dist edge x)
  have hsl := (dist edge s).isLt
  have hxl := (dist edge x).isLt
  generalize 2^w=n at *
  split_ifs at hs hx <;> omega

theorem place_ascending_iff (h : Ascending edge l) (hs : 0<pos edge s) :
    Ascending edge (place edge s l) ↔ ∀ x∈l,0≤pos edge x := by
  induction l with
  | nil => simp [place,Ascending]
  | cons x l ih =>
    obtain ⟨hx,hl⟩ := pairwise_cons.1 h
    unfold place
    by_cases hlt : dist edge s<dist edge x
    · rw [if_pos hlt]
      constructor
      · intro hp y hy
        exact hs.le.trans ((pairwise_cons.1 hp).1 y hy)
      · intro ha
        refine pairwise_cons.2 ⟨fun y hy => ?_,h⟩
        have hsx : pos edge s<pos edge x :=
          ((dist_lt_iff hs.le).1 hlt).resolve_right (not_lt.2 (ha x mem_cons_self))
        rcases mem_cons.1 hy with rfl|hy
        · exact hsx.le
        · exact hsx.le.trans (hx y hy)
    rw [if_neg hlt]
    have hnot : ¬(pos edge s<pos edge x ∨ pos edge x<0) := fun hc => hlt ((dist_lt_iff hs.le).2 hc)
    constructor
    · intro hp y hy
      rcases mem_cons.1 hy with rfl|hy
      · omega
      · exact (ih hl).1 (pairwise_cons.1 hp).2 y hy
    · intro ha
      refine pairwise_cons.2 ⟨fun y hy => ?_,(ih hl).2 fun y hy => ha y (mem_cons_of_mem x hy)⟩
      rcases mem_place.1 hy with rfl|hy
      · omega
      · exact hx y hy

/-- A number the edge leaves half the circle behind, and that then lies ahead of it. -/
def fallsOut (edge edge' x : BitVec w) : Prop := pos edge x<pos edge' x

instance (edge edge' x : BitVec w) : Decidable (fallsOut edge edge' x) :=
  inferInstanceAs (Decidable (pos edge x<pos edge' x))

variable {edge' : BitVec w}

/-- An edge that moves forward moves every number back by as much, once around for one that falls out. -/
theorem pos_forward {x : BitVec w} (h : 0≤pos edge edge') :
    (fallsOut edge edge' x → pos edge' x=pos edge x-pos edge edge'+2^w) ∧
      (¬fallsOut edge edge' x → pos edge' x=pos edge x-pos edge edge') := by
  have hs : dist edge' x=dist edge x-dist edge edge' := by
    unfold dist
    exact (sub_sub_sub_cancel_right x edge' edge).symm
  unfold fallsOut pos at *
  rw [hs]
  have hk := toInt_eq_toNat_cond (dist edge edge')
  have hx := toInt_eq_toNat_cond (dist edge x)
  have hd := toInt_eq_toNat_cond (dist edge x-dist edge edge')
  have hkl := (dist edge edge').isLt
  have hxl := (dist edge x).isLt
  have hc : ((2^w : ℕ) : ℤ)=2^w := by push_cast; rfl
  rcases Nat.lt_or_ge (dist edge x).toNat (dist edge edge').toNat with hlt|hle
  · have hn := toNat_sub_of_lt (lt_def.2 hlt)
    rw [hn] at hd
    rw [←hc] at *
    generalize 2^w=n at *
    split_ifs at hk hx hd <;> omega
  have hn := toNat_sub_of_le (le_def.2 hle)
  rw [hn] at hd
  rw [←hc] at *
  generalize 2^w=n at *
  split_ifs at hk hx hd <;> omega

/-- An edge that moves forward keeps the order exactly when all numbers fall out or none does. -/
theorem forward_ascending_iff (h : Ascending edge l) (hk : 0≤pos edge edge') :
    Ascending edge' l ↔ ∀ x∈l,∀ y∈l,fallsOut edge edge' x → fallsOut edge edge' y := by
  have hb : ∀ x : BitVec w,-2^w≤2*pos edge x ∧ 2*pos edge x<2^w := fun x =>
    ⟨le_two_mul_toInt,two_mul_toInt_lt⟩
  constructor
  · intro h' x hx y hy hfx
    by_contra hfy
    have hx' := (pos_forward hk).1 hfx
    have hy' := (pos_forward hk).2 hfy
    have hbx := hb x
    have hby := hb y
    -- `x` stood before `y`, and now lies farther forward
    obtain ⟨i,hi,rfl⟩ := getElem_of_mem hx
    obtain ⟨j,hj,rfl⟩ := getElem_of_mem hy
    unfold fallsOut at hfx hfy
    rcases Nat.lt_trichotomy i j with hij|hij|hij
    · have hle := pairwise_iff_getElem.1 h' i j hi hj hij
      omega
    · subst hij
      omega
    have hle := pairwise_iff_getElem.1 h j i hj hi hij
    have hb' : 2*pos edge' l[i]<2^w := two_mul_toInt_lt
    have hb'' : -2^w≤2*pos edge' l[j] := le_two_mul_toInt
    omega
  · intro ha
    refine List.Pairwise.imp_of_mem ?_ h
    intro x y hx hy hxy
    have hbx := hb x
    have hby := hb y
    by_cases hfx : fallsOut edge edge' x
    · rw [(pos_forward hk).1 hfx,(pos_forward hk).1 (ha x hx y hy hfx)]
      omega
    by_cases hfy : fallsOut edge edge' y
    · exact absurd (ha y hy x hx hfy) hfx
    · rw [(pos_forward hk).2 hfx,(pos_forward hk).2 hfy]
      omega

end Order

end IdemIp.SeqSpace
