import Mathlib.Data.Nat.Cast.Defs
import Mathlib.Algebra.Ring.Nat
import Mathlib.Data.List.Perm.Basic

/-!
# Runs of a stepwise system

A system is a step function on states and labels. Invariants and balances are
proved of one step and carried to whole runs here over arbitrary types.
A cutter is one with a cursor: a call writes the piece the cursor stands on and
moves behind it, or leaves both, and enough calls with room write all of them.
-/

namespace IdemIp.StepRun

open List

variable {σ α : Type*} (step : σ → α → σ) (gain : σ → α → ℕ) (s : σ)

/-- The state a sequence of labels leads to. -/
def run (step : σ → α → σ) : σ → List α → σ
  | s,[] => s
  | s,a::as => run step (step s a) as

/-- Every label of the sequence meets `ok` in the state it is taken from. -/
def Along (step : σ → α → σ) (ok : σ → α → Prop) : σ → List α → Prop
  | _,[] => True
  | s,a::as => ok s a ∧ Along step ok (step s a) as

instance Along.decidable (step : σ → α → σ) (ok : σ → α → Prop) [∀ s a, Decidable (ok s a)] : ∀ s as, Decidable (Along step ok s as)
  | _,[] => inferInstanceAs (Decidable True)
  | s,a::as =>
    have := Along.decidable step ok (step s a) as
    inferInstanceAs (Decidable (ok s a ∧ Along step ok (step s a) as))

/-- What each step reports, summed over the run. -/
def total (step : σ → α → σ) (gain : σ → α → ℕ) : σ → List α → ℕ
  | _,[] => 0
  | s,a::as => gain s a+total step gain (step s a) as

/-- What each step hands out, in the order of the run. -/
def outputs {β : Type*} (step : σ → α → σ) (out : σ → α → List β) : σ → List α → List β
  | _,[] => []
  | s,a::as => out s a++outputs step out (step s a) as

theorem run_append (as bs : List α) : run step s (as++bs)=run step (run step s as) bs := by
  induction as generalizing s with
  | nil => rfl
  | cons a as ih => exact ih (step s a)

variable {ok : σ → α → Prop} {as bs : List α}

/-- A condition along two sequences holds along the first and, from where it ends, along the second. -/
theorem along_append {step : σ → α → σ} {s : σ} :
    Along step ok s (as++bs) ↔ Along step ok s as ∧ Along step ok (run step s as) bs := by
  induction as generalizing s with
  | nil => exact ⟨fun h => ⟨trivial,h⟩,fun h => h.2⟩
  | cons a as ih => exact (and_congr_right fun _ => ih).trans and_assoc.symm

theorem total_append (as bs : List α) : total step gain s (as++bs)=total step gain s as+total step gain (run step s as) bs := by
  induction as generalizing s with
  | nil => exact (Nat.zero_add _).symm
  | cons a as ih =>
    have hr := ih (step s a)
    dsimp only [run,total,cons_append]
    omega

theorem total_add (f g : σ → α → ℕ) (s : σ) (as : List α) :
    total step (fun s a => f s a+g s a) s as=total step f s as+total step g s as := by
  induction as generalizing s with
  | nil => rfl
  | cons a as ih =>
    have hr := ih (step s a)
    dsimp only [total]
    omega

/-- The reports of a run add up to nothing exactly when no step reports anything. -/
theorem total_eq_zero_iff (as : List α) : total step gain s as=0 ↔ Along step (fun s a => gain s a=0) s as := by
  induction as generalizing s with
  | nil => simp [total,Along]
  | cons a as ih =>
    dsimp only [total,Along]
    rw [Nat.add_eq_zero_iff,ih (step s a)]

theorem along_forall {ι : Type*} (step : σ → α → σ) (ok : ι → σ → α → Prop) (s : σ) (as : List α) :
    (∀ i,Along step (ok i) s as) ↔ Along step (fun s a => ∀ i,ok i s a) s as := by
  induction as generalizing s with
  | nil => simp [Along]
  | cons a as ih =>
    dsimp only [Along]
    rw [forall_and,ih (step s a)]

variable {n : ℕ}

theorem along_true {as : List α} : Along step (fun _ _ => True) s as := by
  induction as generalizing s with
  | nil => trivial
  | cons a as ih => exact ⟨trivial,ih (step s a)⟩

theorem run_take_succ {a : α} (h : as[n]?=some a) : run step s (as.take (n+1))=step (run step s (as.take n)) a := by
  rw [take_add_one,h,run_append]
  rfl

theorem along_iff_get (ok : σ → α → Prop) (s : σ) (as : List α) :
    Along step ok s as ↔ ∀ n a,as[n]?=some a → ok (run step s (as.take n)) a := by
  induction as generalizing s with
  | nil => simp [Along]
  | cons b as ih =>
    constructor
    · rintro ⟨hb,hr⟩ n a ha
      cases n with
      | zero =>
        cases ha
        exact hb
      | succ n => exact (ih (step s b)).1 hr n a ha
    · intro h
      exact ⟨h 0 b rfl,(ih (step s b)).2 fun n a ha => h (n+1) a ha⟩

variable {step gain} {inv : σ → Prop}

/-- An invariant kept by every step that meets `ok` holds after every run of such steps. -/
theorem run_invariant (hst : ∀ s a, inv s → ok s a → inv (step s a)) {s : σ} (hs : inv s)
    (hok : Along step ok s as) : inv (run step s as) := by
  induction as generalizing s with
  | nil => exact hs
  | cons a as ih => exact ih (hst s a hs hok.1) hok.2

theorem run_always (hst : ∀ s a, inv s → inv (step s a)) {s : σ} (hs : inv s) : inv (run step s as) := by
  induction as generalizing s with
  | nil => exact hs
  | cons a as ih => exact ih (hst s a hs)

/-- Steps that each draw what they report from one level draw their sum over the run. -/
theorem run_balance {level : σ → ℕ}
    (hkeep : ∀ s a, inv s → inv (step s a)) (hst : ∀ s a, inv s → level (step s a)+gain s a=level s) {s : σ}
    (hs : inv s) {as : List α} : level (run step s as)+total step gain s as=level s := by
  induction as generalizing s with
  | nil => rfl
  | cons a as ih =>
    have h := hst s a hs
    have hr := ih (hkeep s a hs)
    dsimp only [run,total]
    omega

/-- Steps that each give to and take from one level have it balance over the run. -/
theorem run_ledger {give take : σ → α → ℕ} (level : σ → ℕ) (hkeep : ∀ s a, inv s → inv (step s a))
    (hst : ∀ s a, inv s → level (step s a)+take s a=level s+give s a) {s : σ} (hs : inv s) (as : List α) :
    level (run step s as)+total step take s as=level s+total step give s as := by
  induction as generalizing s with
  | nil => rfl
  | cons a as ih =>
    have h := hst s a hs
    have hr := ih (hkeep s a hs)
    dsimp only [run,total]
    omega

/-- Where a step has a property afterwards exactly when it meets `ok`, under an invariant, a run has it all along
exactly when the first state has it and every step meets `ok`. -/
theorem every_iff_along_of {rule : σ → α → Prop} {keep : σ → Prop} (hkeep : ∀ s a, keep s → keep (step s a))
    (hst : ∀ s a, keep s → rule s a → inv s → (inv (step s a) ↔ ok s a)) {s : σ} (hs : keep s)
    (hr : Along step rule s as) : (∀ n,inv (run step s (as.take n))) ↔ inv s ∧ Along step ok s as := by
  induction as generalizing s with
  | nil => simp [run,Along]
  | cons a as ih =>
    constructor
    · intro h
      have hi : inv s := h 0
      have hn : ∀ n,inv (run step (step s a) (as.take n)) := fun n => h (n+1)
      have hrs := (ih (hkeep s a hs) hr.2).1 hn
      exact ⟨hi,(hst s a hs hr.1 hi).1 hrs.1,hrs.2⟩
    · rintro ⟨hi,hok,hrs⟩ n
      cases n with
      | zero => exact hi
      | succ n => exact (ih (hkeep s a hs) hr.2).2 ⟨(hst s a hs hr.1 hi).2 hok,hrs⟩ n

/-- Where a step keeps a property exactly when it meets `ok`, so does a run that has it at first. -/
theorem every_iff_along (hs : ∀ s a, inv s → (inv (step s a) ↔ ok s a)) {s : σ} {as : List α} :
    (∀ n,inv (run step s (as.take n))) ↔ inv s ∧ Along step ok s as :=
  have hkeep : σ → α → True → True := fun _ _ h => h
  every_iff_along_of hkeep (fun s a _ _ hi => hs s a hi) trivial (along_true step s)

variable {ok' : σ → α → Prop}

variable (hkeep : ∀ s a, inv s → inv (step s a))
include hkeep

/-- Two conditions that agree wherever an invariant holds agree along every run from there. -/
theorem along_congr (hi : ∀ s a, inv s → (ok s a ↔ ok' s a)) {s : σ} (hs : inv s)
    {as : List α} : Along step ok s as ↔ Along step ok' s as := by
  induction as generalizing s with
  | nil => exact Iff.rfl
  | cons a as ih => exact and_congr (hi s a hs) (ih (hkeep s a hs))

omit hkeep in
/-- A condition that follows from another under an invariant of the steps follows along every run. -/
theorem Along.imp (hkeep : ∀ s a, inv s → ok s a → inv (step s a)) (hi : ∀ s a, inv s → ok s a → ok' s a) {s : σ} (hs : inv s)
    (h : Along step ok s as) : Along step ok' s as := by
  induction as generalizing s with
  | nil => trivial
  | cons a as ih => exact ⟨hi s a hs h.1,ih (hkeep s a hs h.1) h.2⟩

omit hkeep in
/-- Where every state lets one label of a sequence through at most, no other order of the sequence gets through. -/
theorem Along.unique {s : σ} (ho : ∀ s,∀ a∈as,∀ b∈as,ok s a → ok s b → a=b) (hp : bs.Perm as) (ha : Along step ok s as)
    (hb : Along step ok s bs) : bs=as := by
  induction as generalizing s bs with
  | nil => exact hp.eq_nil
  | cons a as ih =>
    cases bs with
    | nil => exact absurd hp.symm.eq_nil (cons_ne_nil a as)
    | cons b bs =>
      have hm : b∈a::as := hp.subset mem_cons_self
      have hab : b=a := ho s b hm a mem_cons_self hb.1 ha.1
      subst hab
      have ht : bs=as := ih (fun s x hx y hy => ho s x (mem_cons_of_mem _ hx) y (mem_cons_of_mem _ hy))
        hp.cons_inv ha.2 hb.2
      rw [ht]

/-- Reports below the sizes of their labels add up to the sizes at most, and to just that when each reaches its own. -/
theorem total_sizes {size : α → ℕ} (hle : ∀ s a, inv s → gain s a ≤ size a) {s : σ} (hs : inv s) (as : List α) :
    total step gain s as≤(as.map size).sum ∧
      (total step gain s as=(as.map size).sum ↔ Along step (fun s a => gain s a=size a) s as) := by
  induction as generalizing s with
  | nil => simp [total,Along]
  | cons a as ih =>
    have hhead := hle s a hs
    obtain ⟨htail,hi⟩ := ih (hkeep s a hs)
    dsimp only [total,Along]
    rw [map_cons,sum_cons]
    refine ⟨by omega,?_⟩
    rw [←hi]
    omega

omit hkeep in
/-- What steps that meet `ok` keep, and some state of a run has, the later ones have. -/
theorem later_invariant (hs : ∀ s a, inv s → ok s a → inv (step s a)) {s : σ} (hok : Along step ok s as) {m : ℕ}
    (hnm : n ≤ m) (hn : inv (run step s (as.take n))) : inv (run step s (as.take m)) := by
  induction m,hnm using Nat.le_induction with
  | base => exact hn
  | succ m hnm ih =>
    cases ha : as[m]? with
    | none =>
      have hl : as.length ≤ m := getElem?_eq_none_iff.1 ha
      rw [take_of_length_le (by omega),←take_of_length_le hl]
      exact ih
    | some a =>
      rw [run_take_succ step s ha]
      exact hs _ a ih ((along_iff_get step ok s as).1 hok m a ha)

/-- A level every step moves by what it reports has moved by their sum after a run. -/
theorem run_drift {R : Type*} [AddMonoidWithOne R] (level : σ → R)
    (hst : ∀ s a, inv s → level (step s a)=level s+(gain s a : R)) {s : σ} (hs : inv s) (as : List α) :
    level (run step s as)=level s+(total step gain s as : R) := by
  induction as generalizing s with
  | nil => simp [run,total]
  | cons a as ih =>
    have hr := ih (hkeep s a hs)
    dsimp only [run,total]
    rw [hr,hst s a hs,Nat.cast_add,add_assoc]

variable {β : Type*} {give take : σ → α → List β}

/-- Steps that each put things into one stock and take things out of it have all of them accounted for after a run. -/
theorem run_inventory (stock : σ → List β)
    (hst : ∀ s a, inv s → (stock (step s a)++take s a).Perm (stock s++give s a)) {s : σ} (hs : inv s) (as : List α) :
    (stock (run step s as)++outputs step take s as).Perm (stock s++outputs step give s as) := by
  induction as generalizing s with
  | nil => exact .refl _
  | cons a as ih =>
    have hr := ih (hkeep s a hs)
    have hf : (stock (run step (step s a) as)++(take s a++outputs step take (step s a) as)).Perm
        (take s a++(stock (run step (step s a) as)++outputs step take (step s a) as)) := by
      rw [←append_assoc,←append_assoc]
      exact perm_append_comm.append_right _
    have hb : (take s a++(stock (step s a)++outputs step give (step s a) as)).Perm
        (stock s++(give s a++outputs step give (step s a) as)) := by
      rw [←append_assoc,←append_assoc]
      exact (perm_append_comm.trans (hst s a hs)).append_right _
    exact hf.trans ((hr.append_left _).trans hb)

/-- Where each step takes from the front of a queue and puts behind it, a run takes things in the order they were put. -/
theorem run_order (queue : σ → List β)
    (hst : ∀ s a, inv s → (take s a++queue (step s a)).Sublist (queue s++give s a)) {s : σ} (hs : inv s) (as : List α) :
    (outputs step take s as++queue (run step s as)).Sublist (queue s++outputs step give s as) := by
  induction as generalizing s with
  | nil => simp only [outputs,run,nil_append,append_nil,List.Sublist.refl]
  | cons a as ih =>
    have hr := ih (hkeep s a hs)
    dsimp only [run,outputs]
    rw [append_assoc]
    refine (hr.append_left (take s a)).trans ?_
    rw [←append_assoc,←append_assoc]
    exact (hst s a hs).append_right _

variable {τ : Type*} {step' : τ → α → τ}

/-- A run seen through a map whose image steps on its own. -/
theorem run_image {out : σ → α → List β} {out' : τ → α → List β} {ok' : τ → α → Prop} (f : σ → τ)
    (hst : ∀ s a, inv s → f (step s a)=step' (f s) a) (hot : ∀ s a, inv s → out s a=out' (f s) a)
    (hok : ∀ s a, inv s → (ok s a ↔ ok' (f s) a)) {s : σ} (hs : inv s) (as : List α) :
    f (run step s as)=run step' (f s) as ∧ outputs step out s as=outputs step' out' (f s) as ∧
      (Along step ok s as ↔ Along step' ok' (f s) as) := by
  induction as generalizing s with
  | nil => exact ⟨rfl,rfl,Iff.rfl⟩
  | cons a as ih =>
    obtain ⟨hr,ho,ha⟩ := ih (hkeep s a hs)
    rw [hst s a hs] at hr ho ha
    refine ⟨hr,?_,and_congr (hok s a hs) ha⟩
    show out s a++_=_++_
    rw [hot s a hs,ho]

omit hkeep

/-- What a view of the states shows of a run, where each step can be followed in it. -/
theorem run_map (f : σ → τ) (hs : ∀ s a, f (step s a)=step' (f s) a)
    (s : σ) (as : List α) : f (run step s as)=run step' (f s) as := by
  induction as generalizing s with
  | nil => rfl
  | cons a as ih =>
    refine (ih (step s a)).trans ?_
    rw [hs]
    rfl

/-- A condition on the view holds along the one run as it does along the other. -/
theorem along_map (f : σ → τ) (hs : ∀ s a, f (step s a)=step' (f s) a)
    (ok : τ → α → Prop) (s : σ) (as : List α) : Along step (fun s a => ok (f s) a) s as ↔ Along step' ok (f s) as := by
  induction as generalizing s with
  | nil => exact Iff.rfl
  | cons a as ih =>
    refine and_congr_right fun _ => (ih (step s a)).trans ?_
    rw [hs]

end IdemIp.StepRun

namespace IdemIp.Cutter

open StepRun

variable {σ α κ β : Type*}

/-- Pieces written one after the other between two cursors. -/
inductive Cuts (done : κ → Bool) (advance : κ → κ) (part : κ → β → Prop) : κ → List β → κ → Prop
  | nil (c : κ) : Cuts done advance part c [] c
  | cons {c c' : κ} {f : β} {fs : List β} (hd : done c=false) (hf : part c f) (hs : Cuts done advance part (advance c) fs c') :
      Cuts done advance part c (f::fs) c'

/-- What a call does to a cursor that stands on a piece, and to one that does not. -/
structure Lawful (step : σ → α → σ) (written : σ → α → List β) (cursor : σ → κ) (fits : κ → α → Prop) (done : κ → Bool)
    (advance : κ → κ) (part : κ → β → Prop) (inv : κ → Prop) : Prop where
  idle : ∀ s a,inv (cursor s) → done (cursor s) ∨ ¬fits (cursor s) a → cursor (step s a)=cursor s ∧ written s a=[]
  cuts : ∀ s a,inv (cursor s) → done (cursor s)=false → fits (cursor s) a →
    cursor (step s a)=advance (cursor s) ∧ ∃ f,written s a=[f] ∧ part (cursor s) f
  keeps : ∀ c,inv c → done c=false → inv (advance c)

/-- What a call answers for a cursor: it writes the piece there and moves behind it, or stays. -/
structure Turn (done : κ → Bool) (advance : κ → κ) (c c' : κ) (fits ok ended : Prop) (out piece : β) : Prop where
  idle : done c ∨ ¬fits → ¬ok ∧ c'=c
  cuts : done c=false → fits → ok ∧ c'=advance c ∧ out=piece
  ended : ended ↔ done c=true

theorem Cuts.eq_nil {done : κ → Bool} {advance : κ → κ} {part : κ → β → Prop} {c c' : κ} {fs : List β}
    (h : Cuts done advance part c fs c') (hd : done c) : fs=[] := by
  cases h with
  | nil => rfl
  | cons hd' _ _ => cases hd'.symm.trans hd

/-- A call that stays at the end, stays without room, and writes otherwise. -/
theorem Turn.of_guards {ρ : Type*} {done : κ → Bool} {advance : κ → κ} {c : κ} {piece : β} {r x y z : ρ} {cap len : ℕ}
    (ctx : ρ → κ) (ok ended : ρ → Prop) (out : ρ → β) (hr : r=if done c then x else if cap < len then y else z)
    (hx : ¬ok x ∧ ctx x=c ∧ ended x) (hy : ¬ok y ∧ ctx y=c ∧ ¬ended y)
    (hz : ok z ∧ ctx z=advance c ∧ out z=piece ∧ ¬ended z) :
    Turn done advance c (ctx r) (len ≤ cap) (ok r) (ended r) (out r) piece := by
  subst hr
  cases hd : done c with
  | true =>
    rw [if_pos rfl]
    exact ⟨fun _ => ⟨hx.1,hx.2.1⟩,fun hno => (Bool.false_ne_true (hno.symm.trans hd)).elim,iff_of_true hx.2.2 hd⟩
  | false =>
    have hrn : ¬done c := by rw [hd]; exact nofun
    rw [if_neg nofun]
    by_cases hc : cap<len
    · rw [if_pos hc]
      exact ⟨fun _ => ⟨hy.1,hy.2.1⟩,fun _ hf => (Nat.not_lt.2 hf hc).elim,iff_of_false hy.2.2 hrn⟩
    rw [if_neg hc]
    exact ⟨fun hi => (hi.resolve_left hrn (Nat.not_lt.1 hc)).elim,fun _ _ => ⟨hz.1,hz.2.1,hz.2.2.1⟩,
      iff_of_false hz.2.2.2 hrn⟩

section Calls

variable {step : σ → α → σ} {written : σ → α → List β} {cursor : σ → κ} {fits : κ → α → Prop} {done : κ → Bool} {advance : κ → κ}
  {part : κ → β → Prop} {inv : κ → Prop} {s : σ}

theorem Lawful.of_turns {ok ended : σ → α → Prop} [∀ s a,Decidable (ok s a)] {out piece : σ → α → β}
    (ht : ∀ s a,inv (cursor s) →
      Turn done advance (cursor s) (cursor (step s a)) (fits (cursor s) a) (ok s a) (ended s a) (out s a) (piece s a))
    (hp : ∀ s a,inv (cursor s) → done (cursor s)=false → part (cursor s) (piece s a))
    (hk : ∀ c,inv c → done c=false → inv (advance c)) :
    Lawful step (fun s a => if ok s a then [out s a] else []) cursor fits done advance part inv := by
  refine ⟨fun s a hs hi => ?_,fun s a hs hd hf => ?_,hk⟩
  · obtain ⟨hno,hst⟩ := (ht s a hs).idle hi
    exact ⟨hst,if_neg hno⟩
  · obtain ⟨hok,hm,ho⟩ := (ht s a hs).cuts hd hf
    refine ⟨hm,piece s a,?_,hp s a hs hd⟩
    rw [if_pos hok,ho]

section

variable (h : Lawful step written cursor fits done advance part inv)

include h

theorem Lawful.call (hs : inv (cursor s)) (a : α) :
    (done (cursor s) ∨ ¬fits (cursor s) a) ∧ cursor (step s a)=cursor s ∧ written s a=[] ∨
      done (cursor s)=false ∧ cursor (step s a)=advance (cursor s) ∧ ∃ f,written s a=[f] ∧ part (cursor s) f := by
  by_cases hi : done (cursor s) ∨ ¬fits (cursor s) a
  · exact .inl ⟨hi,h.idle s a hs hi⟩
  obtain ⟨hd,hf⟩ := not_or.1 hi
  have hd := Bool.eq_false_iff.2 hd
  exact .inr ⟨hd,h.cuts s a hs hd (not_not.1 hf)⟩

theorem Lawful.run_cuts (hs : inv (cursor s)) (as : List α) :
    Cuts done advance part (cursor s) (outputs step written s as) (cursor (run step s as)) ∧ inv (cursor (run step s as)) := by
  induction as generalizing s with
  | nil => exact ⟨.nil _,hs⟩
  | cons a as ih =>
    unfold outputs
    rcases h.call hs a with ⟨-,hc,hw⟩|⟨hd,hc,f,hw,hf⟩
    · have hr := ih (s := step s a) (by rw [hc]; exact hs)
      rw [hc] at hr
      rw [hw,List.nil_append]
      exact hr
    obtain ⟨hct,hi⟩ := ih (s := step s a) (by rw [hc]; exact h.keeps _ hs hd)
    rw [hc] at hct
    rw [hw,List.singleton_append]
    exact ⟨.cons hd hf hct,hi⟩

/-- Where each piece leaves less, as many calls with room as are left write everything. -/
theorem Lawful.run_finishes {left : κ → ℕ} {room : α → Bool} (hz : ∀ c,left c=0 → done c) (hdn : ∀ c,done c → left c=0)
    (hl : ∀ c,inv c → done c=false → left (advance c)<left c)
    (hrm : ∀ c a,inv c → done c=false → room a → fits c a) (hs : inv (cursor s)) (as : List α)
    (has : left (cursor s)≤(as.filter room).length) : done (cursor (run step s as)) := by
  induction as generalizing s with
  | nil => exact hz _ (Nat.le_zero.1 has)
  | cons a as ih =>
    rw [List.filter_cons] at has
    rcases h.call hs a with ⟨hi,hc,-⟩|⟨hd,hc,-⟩
    · refine ih (s := step s a) (by rw [hc]; exact hs) ?_
      rw [hc]
      cases hd : done (cursor s) with
      | true =>
        rw [hdn _ hd]
        exact Nat.zero_le _
      | false =>
        have hsm : ¬room a := fun hr =>
          (hi.resolve_left (by rw [hd]; exact Bool.false_ne_true)) (hrm _ a hs hd hr)
        rwa [if_neg hsm] at has
    · refine ih (s := step s a) (by rw [hc]; exact h.keeps _ hs hd) ?_
      have hlt := hl _ hs hd
      rw [hc]
      split_ifs at has with hr
      · rw [List.length_cons] at has
        omega
      · omega

end

end Calls

end IdemIp.Cutter
