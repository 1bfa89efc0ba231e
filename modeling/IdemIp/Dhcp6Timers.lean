import IdemIp.StepRun

/-!
# Retransmission times of the DHCPv6 client, `dhcp6.c`

A message goes out again after a time that a random word stretches or shortens, twice
as long each time up to a maximum that a server may set. The times are followed over
an exchange, from the tick that sends its first message on.
-/

namespace IdemIp.Dhcp6

open StepRun

/-- Exchanges that transmit, of `IdemIpDhcp6State`. -/
inductive State
  | soliciting | requesting | confirming | renewing | rebinding | infoRequesting | releasing | declining
deriving DecidableEq

/-- What `Dhcp6Ctx` keeps of the retransmissions of an exchange. -/
structure Ctx where
  state : State
  (retries rtMs : ℕ)

/-- The rotations of `dhcp6_draw`. -/
def drawFrom (mask limit : BitVec 32) : ℕ → BitVec 32 → BitVec 32
  | 0,_ => limit>>>1
  | n+1,r => if r &&& mask ≤ limit then r &&& mask else drawFrom mask limit n (r>>>5 ||| r<<<27)

/-- A value up to a limit, `dhcp6_draw`. -/
def draw (rand limit : BitVec 32) : BitVec 32 :=
  let mask := limit ||| limit>>>1
  let mask := mask ||| mask>>>2
  let mask := mask ||| mask>>>4
  let mask := mask ||| mask>>>8
  let mask := mask ||| mask>>>16
  if limit=0 then 0 else drawFrom mask limit 8 rand

/-- What `dhcp6_rand_mag` multiplies. -/
def product (x : ℕ) (rand : BitVec 32) : ℕ := min x 42107522*(draw (rand>>>1) 102).toNat

/-- A tenth of a time at most, `dhcp6_rand_mag`. -/
def randMag (x : ℕ) (rand : BitVec 32) : ℕ := product x rand%2^32/2^10

/-- A time more or less a part of it, `dhcp6_rand_apply`. -/
def randApply (base mag : ℕ) (rand : BitVec 32) : ℕ :=
  if rand &&& 1≠0 then if 2^32-1-base < mag then 2^32-1 else (base+mag)%2^32
  else if base < mag then 0 else base-mag

/-- The time to the second transmission, `dhcp6_first_rt`. -/
def firstRt (irtMs : ℕ) (rand : BitVec 32) (positive : Bool) : ℕ :=
  let mag := randMag irtMs rand
  if positive then (irtMs+if mag=0 then 1 else mag)%2^32 else randApply irtMs mag rand

/-- The time to a later transmission, `dhcp6_next_rt`. -/
def nextRt (prevMs mrtMs : ℕ) (rand : BitVec 32) : ℕ :=
  let rt := randApply (prevMs*2%2^32) (randMag prevMs rand) rand
  if mrtMs≠0 ∧ mrtMs < rt then randApply mrtMs (randMag mrtMs rand) rand else rt

/-- The first timeout of an exchange, `dhcp6_irt_ms`. -/
def irtMs : State → ℕ
  | .renewing | .rebinding => 10000
  | _ => 1000

/-- The longest timeout of an exchange, `dhcp6_mrt_ms`, under the maximum of the context; zero is none. -/
def mrtMs (maxRtMs : ℕ) : State → ℕ
  | .soliciting | .infoRequesting => maxRtMs
  | .requesting => 30000
  | .confirming => 4000
  | .renewing | .rebinding => 600000
  | .releasing | .declining => 0

/-- Transmissions of an exchange, `dhcp6_mrc`; zero is no bound. -/
def mrc : State → ℕ
  | .requesting => 10
  | .releasing | .declining => 4
  | _ => 0

/-- The first transmission, `dhcp6_arm_first`. -/
def armFirst (c : Ctx) (rand : BitVec 32) : Ctx :=
  {c with rtMs := firstRt (irtMs c.state) rand (c.state=.soliciting),retries := 1}

/-- A later transmission, `dhcp6_arm_again`. -/
def armAgain (c : Ctx) (maxRtMs : ℕ) (rand : BitVec 32) : Ctx :=
  {c with rtMs := nextRt c.rtMs (mrtMs maxRtMs c.state) rand,retries := if c.retries<0xFF then c.retries+1 else c.retries}

/-- A tick when the time is over, which ends the exchange or sends again. -/
def due (c : Ctx) (maxRtMs : ℕ) (rand : BitVec 32) : Option Ctx :=
  if mrc c.state≠0 ∧ mrc c.state ≤ c.retries then none else some (armAgain c maxRtMs rand)

/-- Such a tick once a maximum of so many seconds was taken, `dhcp6_take_max_rt`. -/
def dueUnder (c : Ctx) (e : ℕ×BitVec 32) : Option Ctx := due c (e.1*1000%2^32) e.2

def step (c : Ctx) (e : ℕ×BitVec 32) : Ctx := (dueUnder c e).getD c

/-- A part of a time goes to or from another in one word: nothing wraps and nothing is cut off. -/
def Whole (base x : ℕ) (rand : BitVec 32) : Prop := product x rand<2^32 ∧ randMag x rand≤base ∧ base+randMag x rand<2^32

/-- The first time is within a tenth of the initial one, and above it for a Solicit. -/
def Begun (st : State) (rand : BitVec 32) (rt : ℕ) : Prop :=
  Whole (irtMs st) (irtMs st) rand ∧ rt≠0 ∧ 9*irtMs st≤10*rt ∧ 10*rt≤11*irtMs st ∧ (st=.soliciting → irtMs st < rt)

/-- A later time is about twice the one before and within the maximum, or about the maximum. -/
def Spaced (prev mrt : ℕ) (rand : BitVec 32) (rt : ℕ) : Prop :=
  prev*2<2^32 ∧ Whole (prev*2) prev rand ∧ Whole mrt mrt rand ∧ rt≠0 ∧
    (19*prev≤10*rt ∧ 10*rt≤21*prev ∧ (mrt≠0 → rt ≤ mrt) ∨ mrt≠0 ∧ 9*mrt≤10*rt ∧ 10*rt≤11*mrt)

/-- No word wraps, and what a tick arms is spaced from the time before. -/
def Paced (c : Ctx) (e : ℕ×BitVec 32) : Prop :=
  e.1*1000<2^32 ∧ ∀ u∈dueUnder c e,Spaced c.rtMs (mrtMs (e.1*1000%2^32) c.state) e.2 u.rtMs

theorem draw_le {rand limit : BitVec 32} : (draw rand limit).toNat≤limit.toNat := by
  have hf : ∀ mask n r,(drawFrom mask limit n r).toNat≤limit.toNat := by
    intro mask n
    induction n with
    | zero =>
      intro r
      exact Nat.shiftRight_le ..
    | succ n ih =>
      intro r
      unfold drawFrom
      split_ifs with hle
      · exact hle
      · exact ih _
  unfold draw
  dsimp only
  split_ifs
  · exact Nat.zero_le _
  · exact hf _ _ _

/-- A time and a tenth of one that is no longer, where there is room above it. -/
theorem whole_near {base x : ℕ} {rand : BitVec 32} (hx : x≤base) (hlt : base+x<2^32) : Whole base x rand ∧ 10*randMag x rand≤x ∧
    base ≤ randApply base (randMag x rand) rand+randMag x rand ∧ randApply base (randMag x rand) rand≤base+randMag x rand := by
  have hd : (draw (rand>>>1) 102).toNat≤102 := draw_le
  have hml : product x rand ≤ min x 42107522*102 := Nat.mul_le_mul_left _ hd
  have hm : 10*randMag x rand≤x := by
    unfold randMag
    omega
  refine ⟨⟨by omega,by omega,by omega⟩,hm,?_⟩
  unfold randApply
  split_ifs <;> omega

theorem armFirst_begun (c : Ctx) (rand : BitVec 32) : Begun c.state rand (armFirst c rand).rtMs := by
  have hi : irtMs c.state=1000 ∨ irtMs c.state=10000 := by
    cases c.state <;> simp [irtMs]
  obtain ⟨hw,hm,hl,hh⟩ := whole_near (le_refl (irtMs c.state)) (by omega)
  unfold armFirst firstRt
  refine ⟨hw,?_⟩
  by_cases hs : c.state=.soliciting
  · simp only [hs,decide_true,if_true]
    rw [hs] at hm hi
    split_ifs <;> omega
  · simp only [hs,decide_false,Bool.false_eq_true,if_false,false_implies,and_true]
    omega

/-- What the next time needs of the one before. -/
theorem nextRt_spaced {prev mrt : ℕ} (rand : BitVec 32) (hp : prev≠0) (hle : prev≤2^30) (hm : mrt=0 ∨ 4000 ≤ mrt ∧ mrt≤2^30) :
    Spaced prev mrt rand (nextRt prev mrt rand) := by
  obtain ⟨hw,hmg,hl,hh⟩ := whole_near (by omega : prev≤prev*2) (by omega)
  obtain ⟨hwhole',hmag',hlow',hhigh'⟩ := whole_near (le_refl mrt) (by omega)
  have hd : prev*2%2^32=prev*2 := Nat.mod_eq_of_lt (by omega)
  refine ⟨by omega,hw,hwhole',?_⟩
  unfold nextRt
  rw [hd]
  dsimp only
  split_ifs <;> omega

/-- The time of a running exchange, and where no maximum holds, how far its transmissions have taken it. -/
def Timed (c : Ctx) : Prop :=
  c.rtMs≠0 ∧ c.rtMs≤95040000 ∧ (mrc c.state=4 → c.rtMs≤1100*3^c.retries)

theorem mrtMs_cases (st : State) {s : ℕ} (hs : 60 ≤ s ∧ s≤86400) :
    mrtMs (s*1000%2^32) st=0 ∧ mrc st=4 ∨ 4000 ≤ mrtMs (s*1000%2^32) st ∧ mrtMs (s*1000%2^32) st≤86400000 ∧ mrc st≠4 := by
  rw [Nat.mod_eq_of_lt (by omega : s*1000<2^32)]
  cases st <;> simp [mrtMs,mrc] <;> omega

theorem dueUnder_spaced {c u : Ctx} {e : ℕ×BitVec 32} (h : Timed c) (hs : 60≤e.1 ∧ e.1≤86400) (hu : dueUnder c e=some u) :
    Spaced c.rtMs (mrtMs (e.1*1000%2^32) c.state) e.2 u.rtMs ∧ Timed u := by
  obtain ⟨hp,hle,hf⟩ := h
  have hmr := mrtMs_cases c.state hs
  have hsp := nextRt_spaced e.2 hp (by omega) (by omega : mrtMs (e.1*1000%2^32) c.state=0 ∨ _)
  obtain ⟨-,-,-,hne,hn⟩ := id hsp
  unfold dueUnder due at hu
  split_ifs at hu with he
  cases hu
  refine ⟨hsp,hne,?_⟩
  unfold armAgain
  dsimp only
  rcases hmr with ⟨hz,hm⟩|⟨hl,hh,hm⟩
  · -- such an exchange has four transmissions
    have hfw : 3^c.retries≤3^3 := Nat.pow_le_pow_right (by decide) (by omega)
    have ht : 3^(c.retries+1)=3^c.retries*3 := Nat.pow_succ ..
    have hg := hf hm
    rw [if_pos (by omega),ht]
    omega
  · exact ⟨by omega,fun h => absurd h hm⟩

/-- Over every exchange the first time is near the initial one and each later one is spaced from the one before. -/
theorem run_paced (c : Ctx) (rand : BitVec 32) (es : List (ℕ×BitVec 32)) (hs : ∀ e∈es,60≤e.1 ∧ e.1≤86400) :
    Begun c.state rand (armFirst c rand).rtMs ∧ Along step Paced (armFirst c rand) es := by
  have hb := armFirst_begun c rand
  refine ⟨hb,?_⟩
  have ht : Timed (armFirst c rand) := by
    obtain ⟨-,hp,-,hle,-⟩ := hb
    refine ⟨hp,?_⟩
    revert hle
    change 10*_≤11*irtMs c.state → _ ∧ (mrc c.state=4 → _)
    cases c.state <;> simp [irtMs,mrc,armFirst] <;> omega
  generalize armFirst c rand=t at ht
  induction es generalizing t with
  | nil => trivial
  | cons e es ih =>
    have he := hs e List.mem_cons_self
    refine ⟨⟨by omega,fun u hu => (dueUnder_spaced ht he hu).1⟩,ih (fun e he => hs e (List.mem_cons_of_mem _ he)) _ ?_⟩
    unfold step
    cases hu : dueUnder t e with
    | none => exact ht
    | some u => exact (dueUnder_spaced ht he hu).2

/-- A Solicit, and two more while a day is the maximum. -/
theorem run_paced_solicit :
    let c : Ctx := ⟨.soliciting,0,0⟩
    let es := [(86400,1),(86400,(0 : BitVec 32))]
    (∀ e∈es,60≤e.1 ∧ e.1≤86400) ∧ Begun c.state 0 (armFirst c 0).rtMs ∧ Along step Paced (armFirst c 0) es := by
  intro c es
  have hs : ∀ e∈es,60≤e.1 ∧ e.1≤86400 := by decide
  exact ⟨hs,run_paced c 0 es hs⟩

end IdemIp.Dhcp6
