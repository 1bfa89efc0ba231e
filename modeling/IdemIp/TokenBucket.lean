import IdemIp.StepRun

/-!
# A token bucket on a count that wraps

The bucket fills by one token each interval and a request takes one. What it holds
together with the time not credited yet is its credit. Where the credit stays
within a full bucket, any window of requests is granted at most the bucket and one
for each interval of the window.
-/

namespace IdemIp.TokenBucket

open StepRun List Nat

/-- How much a bucket holds and how fast it fills. -/
structure Rate where
  (bucket tokenMs : ℕ)
  bucket_pos : 0<bucket
  tokenMs_pos : 0<tokenMs
  span_lt : bucket*tokenMs<2^32

/-- A bucket: its tokens and the count they are credited to. -/
@[ext]
structure Bucket where
  tokens : ℕ
  refillMs : BitVec 32
deriving DecidableEq

/-- Milliseconds on a count since the bucket was credited. -/
def Bucket.elapsed (b : Bucket) (nowMs : BitVec 32) : ℕ := (nowMs-b.refillMs).toNat

variable (r : Rate)

/-- Credit one interval after another until the bucket is full. -/
def Rate.topUp : ℕ → Bucket → ℕ → Bucket
  | 0,b,_ => b
  | fuel+1,b,elapsed =>
    if r.tokenMs≤elapsed ∧ b.tokens < r.bucket then
      topUp fuel ⟨b.tokens+1,b.refillMs+BitVec.ofNat 32 r.tokenMs⟩ (elapsed-r.tokenMs)
    else b

/-- Credit the time that went by. -/
def Rate.refill (b : Bucket) (nowMs : BitVec 32) : Bucket :=
  if r.bucket≤b.tokens then ⟨r.bucket,nowMs⟩
  else if r.bucket*r.tokenMs≤b.elapsed nowMs then ⟨r.bucket,nowMs⟩
  else r.topUp r.bucket b (b.elapsed nowMs)

/-- Tokens and uncredited time, in milliseconds. -/
def Rate.credit (b : Bucket) (nowMs : BitVec 32) : ℕ := b.tokens*r.tokenMs+b.elapsed nowMs

variable {r : Rate} {b : Bucket} {now : BitVec 32} {last time : ℕ}

theorem Bucket.elapsed_credit (h : r.tokenMs≤b.elapsed now) {n : ℕ} :
    Bucket.elapsed ⟨n,b.refillMs+BitVec.ofNat 32 r.tokenMs⟩ now=b.elapsed now-r.tokenMs := by
  unfold Bucket.elapsed at *
  have hs : now-(b.refillMs+BitVec.ofNat 32 r.tokenMs)=(now-b.refillMs)-BitVec.ofNat 32 r.tokenMs := by bv_omega
  have hlt := (now-b.refillMs).isLt
  rw [hs,BitVec.toNat_sub,BitVec.toNat_ofNat]
  generalize (now-b.refillMs).toNat=e at *
  have hm : r.tokenMs%2^32=r.tokenMs := mod_eq_of_lt (by omega)
  rw [hm]
  have hsm : 2^32-r.tokenMs+e=(e-r.tokenMs)+2^32 := by omega
  rw [hsm,add_mod_right,mod_eq_of_lt (by omega)]

theorem topUp_credit {now : BitVec 32} {fuel : ℕ} (hb : b.tokens ≤ r.bucket) :
    r.credit (r.topUp fuel b (b.elapsed now)) now=r.credit b now ∧ (r.topUp fuel b (b.elapsed now)).tokens ≤ r.bucket := by
  induction fuel generalizing b with
  | zero => exact ⟨rfl,hb⟩
  | succ fuel ih =>
    unfold Rate.topUp
    by_cases hm : r.tokenMs≤b.elapsed now ∧ b.tokens < r.bucket
    · rw [if_pos hm,←Bucket.elapsed_credit hm.1]
      obtain ⟨hc,hle⟩ := ih (b := ⟨b.tokens+1,b.refillMs+BitVec.ofNat 32 r.tokenMs⟩) hm.2
      refine ⟨hc.trans ?_,hle⟩
      unfold Rate.credit
      rw [Bucket.elapsed_credit hm.1,succ_mul]
      omega
    · rw [if_neg hm]
      exact ⟨rfl,hb⟩

theorem Bucket.elapsed_later (b : Bucket) (h : last≤time) :
    b.elapsed (BitVec.ofNat 32 time)=(b.elapsed (BitVec.ofNat 32 last)+(time-last))%2^32 := by
  unfold Bucket.elapsed
  obtain ⟨gap,rfl⟩ := Nat.exists_eq_add_of_le h
  rw [Nat.add_sub_cancel_left,BitVec.ofNat_add]
  have hs : BitVec.ofNat 32 last+BitVec.ofNat 32 gap-b.refillMs=(BitVec.ofNat 32 last-b.refillMs)+BitVec.ofNat 32 gap := by
    bv_omega
  rw [hs,BitVec.toNat_add,BitVec.toNat_ofNat,add_mod_mod]

/-- A request comes in time: the bucket is full, a whole bucket's time shows, or no more time passed than the missing
tokens take. -/
def Rate.Timely (r : Rate) (b : Bucket) (last time : ℕ) : Prop :=
  r.bucket≤b.tokens ∨ r.bucket*r.tokenMs≤b.elapsed (BitVec.ofNat 32 time) ∨
    b.elapsed (BitVec.ofNat 32 last)+(time-last)≤(r.bucket-b.tokens)*r.tokenMs

theorem Rate.credit_full (r : Rate) (now : BitVec 32) : r.credit ⟨r.bucket,now⟩ now=r.bucket*r.tokenMs := by
  unfold Rate.credit Bucket.elapsed
  rw [BitVec.sub_self]
  rfl

/-- A refill in time leaves a credit within the bucket, grown by no more than the time. -/
theorem refill_credit (hb : b.tokens ≤ r.bucket) (hle : last≤time) (ht : r.Timely b last time) :
    (r.refill b (BitVec.ofNat 32 time)).tokens ≤ r.bucket ∧
      r.credit (r.refill b (BitVec.ofNat 32 time)) (BitVec.ofNat 32 time) ≤ r.bucket*r.tokenMs ∧
      r.credit (r.refill b (BitVec.ofNat 32 time)) (BitVec.ofNat 32 time) ≤ r.credit b (BitVec.ofNat 32 last)+(time-last) := by
  have hla := b.elapsed_later hle
  unfold Rate.refill
  by_cases hf : r.bucket≤b.tokens
  · have heq : b.tokens=r.bucket := le_antisymm hb hf
    rw [if_pos hf,r.credit_full,Rate.credit,heq]
    exact ⟨le_rfl,le_rfl,by omega⟩
  rw [if_neg hf]
  by_cases hl : r.bucket*r.tokenMs≤b.elapsed (BitVec.ofNat 32 time)
  · rw [if_pos hl,r.credit_full,Rate.credit]
    exact ⟨le_rfl,le_rfl,by omega⟩
  rw [if_neg hl]
  have hs := (ht.resolve_left hf).resolve_left hl
  obtain ⟨hc,htk⟩ := topUp_credit hb
  rw [hc]
  -- the missing tokens take less than the circle, so the count shows the time itself
  have hsp : (r.bucket-b.tokens)*r.tokenMs ≤ r.bucket*r.tokenMs := mul_le_mul_right _ (sub_le _ _)
  have hlt := r.span_lt
  rw [mod_eq_of_lt (by omega)] at hla
  have hsm : b.tokens*r.tokenMs+(r.bucket-b.tokens)*r.tokenMs=r.bucket*r.tokenMs := by
    rw [←Nat.add_mul,Nat.add_sub_cancel' hb]
  unfold Rate.credit
  exact ⟨htk,by omega,by omega⟩

theorem refill_silence (hle : last+r.bucket*r.tokenMs≤time) (ht : r.Timely b last time) :
    (r.refill b (BitVec.ofNat 32 time)).tokens=r.bucket := by
  unfold Rate.refill
  by_cases hf : r.bucket≤b.tokens
  · rw [if_pos hf]
  rw [if_neg hf]
  have hl : r.bucket*r.tokenMs≤b.elapsed (BitVec.ofNat 32 time) := by
    rcases ht.resolve_left hf with hl|hs
    · exact hl
    have hla := b.elapsed_later (show last≤time by omega)
    have hsp : (r.bucket-b.tokens)*r.tokenMs ≤ r.bucket*r.tokenMs := mul_le_mul_right _ (sub_le _ _)
    have hlt := r.span_lt
    rw [hla,mod_eq_of_lt (by omega)]
    omega
  rw [if_pos hl]

/-- A bucket and when a request last reached it. -/
structure Meter where
  bucket : Bucket
  last : ℕ

section Requests

variable {α : Type*} (r : Rate) (time : α → ℕ) (allowed : α → Bool) (m : Meter) (a : α)

/-- The bucket as a request finds it. -/
def Rate.found : Bucket := r.refill m.bucket (BitVec.ofNat 32 (time a))

/-- A request that is allowed takes a token if there is one. -/
def Rate.request : Meter :=
  if allowed a then
    let b := r.found time m a
    ⟨{b with tokens := b.tokens-1},time a⟩
  else m

/-- When a token is taken. -/
def Rate.granted : List ℕ := if allowed a && decide ((r.found time m a).tokens≠0) then [time a] else []

/-- An allowed request comes in time. -/
def Rate.InTime : Prop := allowed a → r.Timely m.bucket m.last (time a)

/-- A bucket within its size. -/
def Meter.Ok : Prop := m.bucket.tokens ≤ r.bucket

variable {r time allowed} {m : Meter} {a : α} {as : List α}

theorem request_credit (hm : m.Ok r) (ha : allowed a) (hle : m.last≤time a) (ht : r.InTime time allowed m a) :
    (r.request time allowed m a).Ok r ∧ (r.request time allowed m a).last=time a ∧
      r.credit (r.request time allowed m a).bucket (BitVec.ofNat 32 (time a))+
        r.tokenMs*(r.granted time allowed m a).length=r.credit (r.found time m a) (BitVec.ofNat 32 (time a)) := by
  obtain ⟨htk,-,-⟩ := refill_credit hm hle (ht ha)
  unfold Rate.request Rate.granted Meter.Ok
  rw [if_pos ha,ha,Bool.true_and]
  refine ⟨le_trans (sub_le _ _) htk,rfl,?_⟩
  unfold Rate.credit Bucket.elapsed
  dsimp only
  generalize r.found time m a=b at *
  by_cases hz : b.tokens=0
  · rw [if_neg (by simp [hz]),hz]
    simp
  obtain ⟨n,hn⟩ := exists_eq_succ_of_ne_zero hz
  rw [if_pos (by simp [hz]),hn]
  simp only [length_singleton,Nat.succ_sub_one,Nat.succ_mul,Nat.mul_one]
  omega

theorem request_refused {r : Rate} {time : α → ℕ} {m : Meter} (ha : allowed a=false) : r.request time allowed m a=m ∧ r.granted time allowed m a=[] := by
  unfold Rate.request Rate.granted
  simp [ha]

theorem granted_time {first : ℕ} (h : ∀ a∈as,first≤time a) :
    ∀ t∈outputs (r.request time allowed) (r.granted time allowed) m as,first≤t := by
  induction as generalizing m with
  | nil => exact fun t ht => absurd ht not_mem_nil
  | cons a as ih =>
    intro t ht
    rcases mem_append.1 ht with ht|ht
    · unfold Rate.granted at ht
      split at ht
      · rw [mem_singleton.1 ht]
        exact h a mem_cons_self
      · exact absurd ht not_mem_nil
    · exact ih (fun c hc => h c (mem_cons_of_mem a hc)) t ht

/-- Up to an instant no more is granted than the credit and the time to it. -/
theorem granted_budget (stop : ℕ) (hm : m.Ok r) (hst : m.last ≤ stop) (hls : ∀ a∈as,m.last≤time a)
    (ho : as.Pairwise fun a b => time a≤time b) (ht : Along (r.request time allowed) (r.InTime time allowed) m as) :
    r.tokenMs*((outputs (r.request time allowed) (r.granted time allowed) m as).filter (· ≤ stop)).length ≤
      r.credit m.bucket (BitVec.ofNat 32 m.last)+(stop-m.last) := by
  induction as generalizing m with
  | nil => simp [outputs]
  | cons a as ih =>
    obtain ⟨hta,hr⟩ := ht
    obtain ⟨hf,ho⟩ := pairwise_cons.1 ho
    have hma := hls a mem_cons_self
    cases ha : allowed a with
    | false =>
      obtain ⟨hs,hn⟩ := request_refused ha
      rw [hs] at hr
      rw [outputs,hs,hn,nil_append]
      exact ih hm hst (fun c hc => hls c (mem_cons_of_mem a hc)) ho hr
    | true =>
      obtain ⟨hok,hnw,hcr⟩ := request_credit hm ha hma hta
      obtain ⟨-,-,hg⟩ := refill_credit hm hma (hta ha)
      change r.credit (r.found time m a) _≤_ at hg
      by_cases hin : time a ≤ stop
      · rw [outputs,filter_append,length_append,Nat.mul_add]
        have hl := ih hok (hnw ▸ hin) (fun c hc => hnw ▸ hf c hc) ho hr
        rw [hnw] at hl
        have hfl : ((r.granted time allowed m a).filter (· ≤ stop)).length≤(r.granted time allowed m a).length :=
          length_filter_le _ _
        have hml := mul_le_mul_left r.tokenMs hfl
        omega
      have hal : ∀ c∈a::as,time a≤time c := fun c hc => by
        rcases mem_cons.1 hc with rfl|hc
        · exact le_rfl
        · exact hf c hc
      have hn : (outputs (r.request time allowed) (r.granted time allowed) m (a::as)).filter (· ≤ stop)=[] := by
        refine filter_eq_nil_iff.2 fun t ht => ?_
        have hl := granted_time hal t ht
        simp only [decide_eq_true_eq]
        omega
      rw [hn]
      simp

/-- In any window no more is granted than the bucket and one for each interval of it. -/
theorem granted_window {start span : ℕ} (hm : m.Ok r) (hls : ∀ a∈as,m.last≤time a) (ho : as.Pairwise fun a b => time a≤time b)
    (ht : Along (r.request time allowed) (r.InTime time allowed) m as) :
    ((outputs (r.request time allowed) (r.granted time allowed) m as).filter fun t => start≤t ∧ t ≤ start+span).length ≤
      r.bucket+span/r.tokenMs := by
  induction as generalizing m with
  | nil => simp [outputs]
  | cons a as ih =>
    obtain ⟨hta,hr⟩ := ht
    obtain ⟨hf,ho⟩ := pairwise_cons.1 ho
    have hma := hls a mem_cons_self
    cases ha : allowed a with
    | false =>
      obtain ⟨hs,hn⟩ := request_refused ha
      rw [hs] at hr
      rw [outputs,hs,hn,nil_append]
      exact ih hm (fun c hc => hls c (mem_cons_of_mem a hc)) ho hr
    | true =>
      obtain ⟨hok,hnw,hcr⟩ := request_credit hm ha hma hta
      have hl : ∀ c∈as,(r.request time allowed m a).last≤time c := fun c hc => hnw ▸ hf c hc
      by_cases hin : time a < start ∨ start+span<time a
      · have hsk : ((r.granted time allowed m a).filter fun t => start≤t ∧ t ≤ start+span)=[] := by
          refine filter_eq_nil_iff.2 fun t ht => ?_
          have htm : t=time a := by
            unfold Rate.granted at ht
            split at ht
            · exact mem_singleton.1 ht
            · exact absurd ht not_mem_nil
          simp only [decide_eq_true_eq]
          omega
        rw [outputs,filter_append,hsk,nil_append]
        exact ih hok hl ho hr
      -- the first request of the window finds at most a full bucket's credit
      obtain ⟨-,hfl,-⟩ := refill_credit hm hma (hta ha)
      change r.credit (r.found time m a) _≤_ at hfl
      have hb := granted_budget (start+span) hok (by omega) hl ho hr
      rw [hnw] at hb
      have hh := length_filter_le (fun t => decide (start≤t ∧ t ≤ start+span)) (r.granted time allowed m a)
      have hth := (monotone_filter_right
        (outputs (r.request time allowed) (r.granted time allowed) (r.request time allowed m a) as)
        (p := fun t => decide (start≤t ∧ t ≤ start+span)) (q := fun t => decide (t ≤ start+span))
        fun t ht => decide_eq_true (of_decide_eq_true ht).2).length_le
      rw [outputs,filter_append,length_append]
      have hml := Nat.mul_le_mul_left r.tokenMs (Nat.add_le_add hh hth)
      rw [Nat.mul_add r.tokenMs (r.granted time allowed m a).length] at hml
      have hd : r.bucket+span/r.tokenMs=(r.bucket*r.tokenMs+span)/r.tokenMs := by
        rw [Nat.mul_comm r.bucket,Nat.mul_add_div r.tokenMs_pos]
      rw [hd,Nat.le_div_iff_mul_le r.tokenMs_pos,Nat.mul_comm]
      omega

theorem run_last (m : Meter) (as : List α) : run (r.request time allowed) m as=m ∨
    ∃ a∈as,allowed a ∧ (run (r.request time allowed) m as).last=time a := by
  induction as generalizing m with
  | nil => exact .inl rfl
  | cons a as ih =>
    rcases ih (r.request time allowed m a) with hs|⟨c,hc,hal,hl⟩
    · cases ha : allowed a with
      | false =>
        rw [(request_refused ha).1] at hs
        refine .inl ?_
        rw [run,(request_refused ha).1]
        exact hs
      | true =>
        refine .inr ⟨a,mem_cons_self,ha,?_⟩
        rw [run,hs,Rate.request,if_pos ha]
    · exact .inr ⟨c,mem_cons_of_mem a hc,hal,hl⟩

theorem granted_silence (hf : r.bucket ≤ m.bucket.tokens) (ha : allowed a)
    (ht : r.InTime time allowed (run (r.request time allowed) m as) a)
    (hs : ∀ c∈as,allowed c → time c+r.bucket*r.tokenMs≤time a) :
    r.granted time allowed (run (r.request time allowed) m as) a=[time a] := by
  have htk : (r.found time (run (r.request time allowed) m as) a).tokens=r.bucket := by
    rcases run_last m as with hsm|⟨c,hc,hal,hl⟩
    · rw [hsm,Rate.found,Rate.refill,if_pos hf]
    refine refill_silence ?_ (ht ha)
    rw [hl]
    exact hs c hc hal
  have hp := r.bucket_pos
  unfold Rate.granted
  rw [if_pos]
  rw [ha,htk,Bool.true_and,decide_eq_true_eq]
  omega

end Requests

section Units

variable {σ α : Type*} (r : Rate) (call : σ → α → σ) (time : α → ℕ) (allowed : α → Bool) (bucket : σ → Bucket)
  (built : σ → α → Bool)

/-- A unit that asks a bucket, and when a call last reached it. -/
structure Clocked (σ : Type*) where
  unit : σ
  last : ℕ

/-- A call, with the time noted if it reaches the bucket. -/
def clocked (s : Clocked σ) (a : α) : Clocked σ := ⟨call s.unit a,if allowed a then time a else s.last⟩

/-- The calls that reach the bucket come in time. -/
def InTime (s : Clocked σ) (a : α) : Prop := allowed a → r.Timely (bucket s.unit) s.last (time a)

/-- When a call is built. -/
def builtAt (s : σ) (a : α) : List ℕ := if built s a then [time a] else []

/-- The rate is kept: a window has at most a bucket and one for each interval, and behind silence what is allowed is
built. -/
def Limited (s : σ) (as : List α) : Prop :=
  (∀ start span,((outputs call (builtAt time built) s as).filter fun t => start≤t ∧ t ≤ start+span).length ≤
    r.bucket+span/r.tokenMs) ∧
  ∀ pre a post,as=pre++a::post → allowed a →
    (∀ c∈pre,allowed c → time c+r.bucket*r.tokenMs≤time a) → built (run call s pre) a=true

/-- What a call does to the bucket. -/
structure Asks (inv : σ → Prop) : Prop where
  keep : ∀ s a,inv s → inv (call s a)
  bucket_call : ∀ s a,inv s → bucket (call s a)=
    if allowed a then {r.refill (bucket s) (BitVec.ofNat 32 (time a)) with
      tokens := (r.refill (bucket s) (BitVec.ofNat 32 (time a))).tokens-1} else bucket s
  built_iff : ∀ s a,inv s → (built s a ↔ allowed a ∧ (r.refill (bucket s) (BitVec.ofNat 32 (time a))).tokens≠0)

variable {r call time allowed bucket built} {inv : σ → Prop} {s : σ} {as : List α}

/-- A unit asks its bucket if the calls refused before it leave it alone and the others take a token. -/
theorem Asks.of_cases (hr : ∀ s a,inv s → ¬allowed a → inv (call s a) ∧ bucket (call s a)=bucket s ∧ built s a=false)
    (hal : ∀ s a,inv s → allowed a → inv (call s a) ∧ bucket (call s a)={r.refill (bucket s) (BitVec.ofNat 32 (time a)) with
        tokens := (r.refill (bucket s) (BitVec.ofNat 32 (time a))).tokens-1} ∧
      (built s a ↔ (r.refill (bucket s) (BitVec.ofNat 32 (time a))).tokens≠0)) :
    Asks r call time allowed bucket built inv := by
  refine ⟨fun s a hs => ?_,fun s a hs => ?_,fun s a hs => ?_⟩
  · by_cases ha : allowed a
    · exact (hal s a hs ha).1
    · exact (hr s a hs ha).1
  · by_cases ha : allowed a
    · rw [if_pos ha]
      exact (hal s a hs ha).2.1
    · rw [if_neg ha]
      exact (hr s a hs ha).2.1
  · by_cases ha : allowed a
    · rw [and_iff_right ha]
      exact (hal s a hs ha).2.2
    · rw [(hr s a hs ha).2.2]
      simp [ha]

/-- The meter of a unit. -/
def Clocked.meter (bucket : σ → Bucket) (s : Clocked σ) : Meter := ⟨bucket s.unit,s.last⟩

theorem Asks.image (h : Asks r call time allowed bucket built inv) (hs : inv s) (last : ℕ) (as : List α) :
    Clocked.meter bucket (run (clocked call time allowed) ⟨s,last⟩ as)=run (r.request time allowed) ⟨bucket s,last⟩ as ∧
      outputs (clocked call time allowed) (fun s a => builtAt time built s.unit a) ⟨s,last⟩ as=
        outputs (r.request time allowed) (r.granted time allowed) ⟨bucket s,last⟩ as ∧
      (Along (clocked call time allowed) (InTime r time allowed bucket) ⟨s,last⟩ as ↔
        Along (r.request time allowed) (r.InTime time allowed) ⟨bucket s,last⟩ as) := by
  have hk : ∀ (s : Clocked σ) a,inv s.unit → inv (clocked call time allowed s a).unit := fun s a hs => h.keep s.unit a hs
  have hst : ∀ (s : Clocked σ) a,inv s.unit →
      Clocked.meter bucket (clocked call time allowed s a)=r.request time allowed (Clocked.meter bucket s) a := by
    intro s a hs
    have hc := h.bucket_call s.unit a hs
    unfold Clocked.meter clocked Rate.request Rate.found
    cases ha : allowed a <;> rw [ha] at hc <;> simpa using hc
  have ho : ∀ (s : Clocked σ) a,inv s.unit → builtAt time built s.unit a=r.granted time allowed (Clocked.meter bucket s) a := by
    intro s a hs
    have hi := h.built_iff s.unit a hs
    unfold builtAt Rate.granted Rate.found Clocked.meter
    refine if_congr ?_ rfl rfl
    rw [hi,Bool.and_eq_true,decide_eq_true_eq]
  have hok : ∀ (s : Clocked σ) a,inv s.unit →
      (InTime r time allowed bucket s a ↔ r.InTime time allowed (Clocked.meter bucket s) a) := fun _ _ _ => Iff.rfl
  exact run_image (s := ⟨s,last⟩) hk (Clocked.meter bucket) hst ho hok hs as

theorem clocked_run {s : Clocked σ} {as : List α} : (run (clocked call time allowed) s as).unit=run call s.unit as :=
  run_map Clocked.unit (fun _ _ => rfl) s as

theorem clocked_outputs (s : Clocked σ) (as : List α) :
    outputs (clocked call time allowed) (fun s a => builtAt time built s.unit a) s as=outputs call (builtAt time built) s.unit as := by
  induction as generalizing s with
  | nil => rfl
  | cons a as ih => exact congrArg _ (ih (clocked call time allowed s a))

/-- A unit that asks a bucket keeps its rate as long as it is asked in time. -/
theorem Asks.limited (h : Asks r call time allowed bucket built inv) (hs : inv s) (hf : (bucket s).tokens=r.bucket)
    (ho : as.Pairwise fun a b => time a≤time b)
    (ht : Along (clocked call time allowed) (InTime r time allowed bucket) ⟨s,0⟩ as) : Limited r call time allowed built s as := by
  obtain ⟨-,hb,hal⟩ := h.image hs 0 as
  rw [clocked_outputs _ as] at hb
  have ht' := hal.1 ht
  refine ⟨fun start span => ?_,fun pre a post heq ha hsl => ?_⟩
  · rw [hb]
    exact granted_window (le_of_eq hf) (fun a _ => zero_le _) ho ht'
  · subst heq
    obtain ⟨hm,-,-⟩ := h.image hs 0 pre
    have hr : inv (run call s pre) := run_always h.keep hs
    have hta := (along_append.1 ht').2.1
    have hg := granted_silence (m := ⟨bucket s,0⟩) (le_of_eq hf.symm) ha hta hsl
    have hbc : (run (r.request time allowed) ⟨bucket s,0⟩ pre).bucket=bucket (run call s pre) := by
      rw [←hm]
      exact congrArg bucket (clocked_run)
    rw [h.built_iff _ _ hr,←hbc]
    refine ⟨ha,fun hz => ?_⟩
    unfold Rate.granted Rate.found at hg
    rw [hz] at hg
    simp at hg

end Units

end IdemIp.TokenBucket
