import IdemIp.DomainName
import IdemIp.Checksum

/-!
# Walks over the names of a message, `dns.c`

A message is octets of someone else's and a length, and every read of it is checked
here, so a walk that strays outside stops with an error instead of an answer. A walk
counts the pointers and the octets a name takes, which bounds its turns.
-/

namespace IdemIp.Dns

open DomainName List Nat

variable (m : Message)

/-- What ends a walk without an answer. -/
inductive Stop
  | outside
  /-- More turns than a name has labels. -/
  | unfinished
deriving DecidableEq

/-- A received message. -/
structure Message where
  octets : Octets
  len : ℕ

/-- Read an octet of the message. -/
def Message.read (i : ℕ) : Except Stop (BitVec 8) :=
  if i < m.len then .ok (m.octets i) else .error .outside

/-- Read sixteen bits of the message. -/
def Message.rd16 (i : ℕ) : Except Stop (BitVec 16) := do
  let a ← m.read i
  let b ← m.read (i+1)
  return a++b

/-- Read thirty-two bits of the message. -/
def Message.rd32 (i : ℕ) : Except Stop (BitVec 32) := do
  let a ← m.rd16 i
  let b ← m.rd16 (i+2)
  return a++b

/-- Copy octets of the message, `memcpy`. -/
def Message.copy (i n : ℕ) : Except Stop Octets :=
  if i+n ≤ m.len then .ok ((m.octets.drop i).padded n) else .error .outside

/-- The separator of a dotted form. -/
def dot : BitVec 8 := 0x2E

/-- Case of a letter taken off, `dns_fold`. -/
def fold (c : BitVec 8) : BitVec 8 := if 0x41 ≤ c ∧ c≤0x5A then c+0x20 else c

/-- Step over pointers to a length octet, `dns_deref`. The pointers still allowed are counted down. -/
def deref (m : Message) (left off : ℕ) : Except Stop (Option (ℕ × ℕ)) :=
  if off < m.len then do
    let n ← m.read off
    if n &&& 0xC0≠0xC0 then return some (off,left)
    else
      match left with
      | 0 => return none
      | left+1 =>
        if m.len≤off+1 then return none
        else do
          let word ← m.rd16 off
          let next := (word &&& 0x3FFF).toNat
          if off≤next then return none else deref m left next
  else return none

/-- The loop of `dns_name_end`. -/
def nameEndFrom (m : Message) : ℕ → ℕ → ℕ → Except Stop (Option ℕ)
  | 0,_,_ => .error .unfinished
  | turns+1,spent,off =>
    if off < m.len then do
      let n ← m.read off
      if n &&& 0xC0=0xC0 then return if m.len<off+2 then none else some (off+2)
      else if 63<n.toNat then return none
      else if n=0 then return some (off+1)
      else if m.len<off+1+n.toNat then return none
      else if 255 < spent+(1+n.toNat)+1 then return none
      else nameEndFrom m turns (spent+(1+n.toNat)) (off+1+n.toNat)
    else return none

/-- Offset behind a name, `dns_name_end`. A label takes two octets at least, so a name of 255 ends within 128 turns. -/
def nameEnd (off : ℕ) : Except Stop (Option ℕ) := nameEndFrom m 128 0 off

/-- One label against the octets of a string. -/
def labelEqText (m : Message) (text : Octets) : ℕ → ℕ → ℕ → Except Stop Bool
  | 0,_,_ => return true
  | n+1,i,t =>
    -- a label octet may itself be zero, so the terminator is tested first
    if text t=0 then return false
    else do
      let c ← m.read i
      if fold c≠fold (text t) then return false else labelEqText m text n (i+1) (t+1)

/-- The loop of `dns_name_eq_text`. -/
def nameEqTextFrom (m : Message) (text : Octets) : ℕ → ℕ → ℕ → ℕ → ℕ → Except Stop Bool
  | 0,_,_,_,_ => .error .unfinished
  | turns+1,left,spent,off,t => do
    match ← deref m left off with
    | none => return false
    | some (off,left) =>
      let n ← m.read off
      if 63<n.toNat then return false
      else if n=0 then return text t==0 || (text t==dot && text (t+1)==0)
      else if m.len<off+1+n.toNat then return false
      else if 255 < spent+(1+n.toNat)+1 then return false
      else do
        let same ← labelEqText m text n.toNat (off+1) t
        if same=false then return false
        else if text (t+n.toNat)=dot then nameEqTextFrom m text turns left (spent+(1+n.toNat)) (off+1+n.toNat) (t+n.toNat+1)
        else if text (t+n.toNat)≠0 then return false
        else nameEqTextFrom m text turns left (spent+(1+n.toNat)) (off+1+n.toNat) (t+n.toNat)

/-- Compare the name at an offset with a dotted string, `dns_name_eq_text`. -/
def nameEqText (off : ℕ) (text : Octets) : Except Stop Bool := nameEqTextFrom m text 128 127 0 off 0

def labelEqWire (m : Message) : ℕ → ℕ → ℕ → Except Stop Bool
  | 0,_,_ => return true
  | n+1,i,j => do
    let c ← m.read i
    let d ← m.read j
    if fold c≠fold d then return false else labelEqWire m n (i+1) (j+1)

/-- The loop of `dns_name_eq_wire`. -/
def nameEqWireFrom (m : Message) : ℕ → ℕ → ℕ → ℕ → ℕ → ℕ → Except Stop Bool
  | 0,_,_,_,_,_ => .error .unfinished
  | turns+1,leftA,leftB,spent,a,b => do
    match ← deref m leftA a with
    | none => return false
    | some (a,leftA) =>
      match ← deref m leftB b with
      | none => return false
      | some (b,leftB) =>
        let n ← m.read a
        let nb ← m.read b
        if n≠nb then return false
        else if n=0 then return true
        else if 63<n.toNat then return false
        else if m.len<a+1+n.toNat ∨ m.len<b+1+n.toNat then return false
        else if 255 < spent+(1+n.toNat)+1 then return false
        else do
          let same ← labelEqWire m n.toNat (a+1) (b+1)
          if same=false then return false
          else nameEqWireFrom m turns leftA leftB (spent+(1+n.toNat)) (a+1+n.toNat) (b+1+n.toNat)

/-- Compare two names of a message, `dns_name_eq_wire`. -/
def nameEqWire (a b : ℕ) : Except Stop Bool := nameEqWireFrom m 128 127 127 0 a b

/-- The loop of `dns_text_wire_len`, over the octets a bound leaves it. -/
def textWireLenFrom (text : Octets) : ℕ → ℕ → ℕ → ℕ → Option (ℕ × ℕ)
  | 0,_,_,_ => none
  | left+1,i,label,wire =>
    if text i≠0 ∧ text i≠dot then
      if 253 < i+1 then none else textWireLenFrom text left (i+1) (label+1) wire
    else if label=0 ∨ 63<label then none
    else if 255<wire+(1+label) then none
    else if text i=0 then some (wire+(1+label),i)
    else if text (i+1)=0 then some (wire+(1+label),i+1)
    else textWireLenFrom text left (i+1) 0 (wire+(1+label))

/-- Octets a dotted form takes on the wire and as text, `dns_text_wire_len`. No text gets beyond 255 octets. -/
def textWireLen (text : Octets) : Option (ℕ × ℕ) := if text 0=0 then none else textWireLenFrom text 256 0 0 1

variable {i turns spent : ℕ}

section Walks

variable {m : Message} {left off : ℕ} {ls : List (List (BitVec 8))} {k : ℕ}

theorem Message.read_ok (h : i < m.len) : m.read i=.ok (m.octets i) := if_pos h

theorem Message.rd16_ok (h : i+1 < m.len) : m.rd16 i=.ok (m.octets i++m.octets (i+1)) := by
  unfold Message.rd16
  rw [read_ok (lt_of_succ_lt h),read_ok h]
  rfl

/-- A walk along pointers that has come to a length octet: the name at the start is the name there. -/
structure Landing (m : Message) (left off o l : ℕ) : Prop where
  lt : o < m.len
  length : m.octets o &&& 0xC0≠0xC0
  le : l≤left
  same : ∀ ls k,Unpacks m.octets m.len off ls k ↔ ∃ j,k=j+(left-l) ∧ Unpacks m.octets m.len o ls j

/-- Where a walk along pointers ends: behind them, or nowhere if the name does not unpack within their bound. -/
def Derefs (m : Message) (left off : ℕ) : Prop :=
  (deref m left off=.ok none ∧ ∀ ls k,Unpacks m.octets m.len off ls k → left<k) ∨
    ∃ o l,deref m left off=.ok (some (o,l)) ∧ Landing m left off o l

theorem derefs_of_not_pointer (h : ¬(off < m.len ∧ m.octets off &&& 0xC0=0xC0)) : Derefs m left off := by
  unfold Derefs deref
  by_cases ho : off < m.len
  · have hp : m.octets off &&& 0xC0≠0xC0 := fun hp => h ⟨ho,hp⟩
    rw [if_pos ho,Message.read_ok ho]
    exact .inr ⟨off,left,if_pos hp,ho,hp,Nat.le_refl _,fun ls k => by simp⟩
  · exact .inl ⟨if_neg ho,fun ls k h => absurd h.lt ho⟩

theorem deref_spec (m : Message) (left off : ℕ) : Derefs m left off := by
  induction left generalizing off with
  | zero =>
    by_cases h : off < m.len ∧ m.octets off &&& 0xC0=0xC0
    · obtain ⟨ho,hp⟩ := h
      refine .inl ⟨?_,fun ls k h => ?_⟩
      · rw [deref,if_pos ho,Message.read_ok ho]
        exact if_neg (not_not.2 hp)
      · obtain ⟨-,-,j,rfl,-⟩ := (unpacks_pointer hp).1 h
        omega
    · exact derefs_of_not_pointer h
  | succ left ih =>
    by_cases h : off < m.len ∧ m.octets off &&& 0xC0=0xC0
    · obtain ⟨ho,hp⟩ := h
      have hs : deref m (left+1) off=if m.len≤off+1 then .ok none else m.rd16 off >>= fun word =>
          if off≤(word &&& 0x3FFF).toNat then .ok none else deref m left (word &&& 0x3FFF).toNat := by
        rw [deref,if_pos ho,Message.read_ok ho]
        exact if_neg (not_not.2 hp)
      unfold Derefs
      rw [hs]
      by_cases he : m.len≤off+1
      · refine .inl ⟨if_pos he,fun ls k h => ?_⟩
        exact absurd ((unpacks_pointer hp).1 h).1 (by omega)
      rw [if_neg he,Message.rd16_ok (by omega)]
      show (ite (off≤target m.octets off) _ _=_ ∧ _) ∨ ∃ o l,ite (off≤target m.octets off) _ _=_ ∧ _
      by_cases hb : off≤target m.octets off
      · refine .inl ⟨if_pos hb,fun ls k h => ?_⟩
        exact absurd ((unpacks_pointer hp).1 h).2.1 (by omega)
      rw [if_neg hb]
      rcases ih (target m.octets off) with ⟨hn,hf⟩|⟨o,l,hsm,hl⟩
      · refine .inl ⟨hn,fun ls k h => ?_⟩
        obtain ⟨-,-,j,rfl,hr⟩ := (unpacks_pointer hp).1 h
        have hj := hf ls j hr
        omega
      refine .inr ⟨o,l,hsm,hl.lt,hl.length,le_succ_of_le hl.le,fun ls k => ?_⟩
      have hle := hl.le
      rw [unpacks_pointer hp]
      constructor
      · rintro ⟨-,-,j,rfl,hr⟩
        obtain ⟨i,rfl,hi⟩ := (hl.same ls j).1 hr
        exact ⟨i,by omega,hi⟩
      · rintro ⟨i,rfl,hi⟩
        exact ⟨by omega,by omega,i+(left-l),by omega,(hl.same ls _).2 ⟨i,rfl,hi⟩⟩
    · exact derefs_of_not_pointer h

/-- The walk ends where the name does, and finds the end of every name that unpacks within the bound. -/
theorem nameEndFrom_spec (m : Message) (off : ℕ) (hrm : spent≤254) (ht : 256 ≤ spent+2*turns) :
    ∃ r,nameEndFrom m turns spent off=.ok r ∧ (∀ e,r=some e → EndsAt m.octets m.len off e) ∧
      ∀ ls k,Unpacks m.octets m.len off ls k → spent+wireLen ls≤255 → r.isSome := by
  induction turns generalizing spent off with
  | zero => omega
  | succ turns ih =>
    have hn : ∀ e,(none : Option ℕ)=some e → EndsAt m.octets m.len off e := fun e he => by cases he
    rw [nameEndFrom]
    by_cases ho : off < m.len
    · rw [if_pos ho,Message.read_ok ho]
      show ∃ r,ite _ _ _=_ ∧ _
      by_cases hp : m.octets off &&& 0xC0=0xC0
      · rw [if_pos hp]
        by_cases hln : m.len<off+2
        · refine ⟨none,congrArg _ (if_pos hln),hn,fun ls k h => ?_⟩
          exact absurd ((unpacks_pointer hp).1 h).1 (by omega)
        · exact ⟨some (off+2),congrArg _ (if_neg hln),fun e he => by cases he; exact .pointer (by omega) hp,
            fun _ _ _ _ => rfl⟩
      rw [if_neg hp]
      by_cases hz : m.octets off=0
      · have hm : ¬63<(m.octets off).toNat := by
          rw [hz]
          decide
        rw [if_neg hm]
        exact ⟨some (off+1),if_pos hz,fun e he => by cases he; exact .root ho hz,fun _ _ _ _ => rfl⟩
      have hl := fun ls k (h : Unpacks m.octets m.len off ls k) => (unpacks_label hz hp).1 h
      by_cases hm : 63<(m.octets off).toNat
      · exact ⟨none,if_pos hm,hn,fun ls k h => absurd (hl ls k h).1 (by omega)⟩
      rw [if_neg hm,if_neg hz]
      by_cases hln : m.len<off+1+(m.octets off).toNat
      · exact ⟨none,if_pos hln,hn,fun ls k h => absurd (hl ls k h).2.1 (by omega)⟩
      rw [if_neg hln]
      have hps : 0<(m.octets off).toNat := Nat.pos_of_ne_zero fun h => hz (BitVec.eq_of_toNat_eq h)
      by_cases hs : 255 < spent+(1+(m.octets off).toNat)+1
      · refine ⟨none,if_pos hs,hn,fun ls k h hw => ?_⟩
        obtain ⟨-,-,rest,rfl,-⟩ := hl ls k h
        rw [wireLen_cons,length_octetsAt] at hw
        have hon : 1≤wireLen rest := le_add_left _ _
        omega
      rw [if_neg hs]
      obtain ⟨r,hr,hen,hsm⟩ :=
        ih (off+1+(m.octets off).toNat) (by omega : spent+(1+(m.octets off).toNat)≤254) (by omega)
      refine ⟨r,hr,fun e he => .label hz (by omega) (by omega) (hen e he),fun ls k h hw => ?_⟩
      obtain ⟨-,-,rest,rfl,hrs⟩ := hl ls k h
      rw [wireLen_cons,length_octetsAt] at hw
      exact hsm rest k hrs (by omega)
    · exact ⟨none,if_neg ho,hn,fun ls k h => absurd h.lt ho⟩

theorem nameEnd_spec {m : Message} {off : ℕ} : ∃ r,nameEnd m off=.ok r ∧ (∀ e,r=some e → EndsAt m.octets m.len off e) ∧
      ∀ ls k,Unpacks m.octets m.len off ls k → 0+wireLen ls≤255 → r.isSome :=
  nameEndFrom_spec m off (by omega) (by omega)

end Walks

variable {n a b w : ℕ} {u r : List (BitVec 8)}

section Text

variable {m : Message} {text : Octets} {T : List (BitVec 8)} {t : ℕ}

/-- A string stands at an offset, terminator included. -/
def Reads (text : Octets) : ℕ → List (BitVec 8) → Prop
  | t,[] => text t=0
  | t,c::T => text t=c ∧ c≠0 ∧ Reads text (t+1) T

theorem Reads.eq_nil (h : Reads text t T) (hz : text t=0) : T=[] := by
  cases T with
  | nil => rfl
  | cons c T =>
    obtain ⟨hc,hne,-⟩ := h
    exact absurd (hc.symm.trans hz) hne

theorem Reads.eq_cons (h : Reads text t T) (hne : text t≠0) : ∃ rest,T=text t::rest ∧ Reads text (t+1) rest := by
  cases T with
  | nil => exact absurd h hne
  | cons c T =>
    obtain ⟨rfl,-,hr⟩ := h
    exact ⟨T,rfl,hr⟩

/-- The end of a name is the end of the string, or the dot that stands for the root. -/
theorem Reads.root_iff (h : Reads text t T) : (text t==0 || (text t==dot && text (t+1)==0)) ↔ Spells dot fold [] T := by
  by_cases hz : text t=0
  · cases h.eq_nil hz
    simp [hz,Spells]
  obtain ⟨rest,rfl,hr⟩ := h.eq_cons hz
  by_cases he : text (t+1)=0
  · cases hr.eq_nil he
    simp only [Spells,he,Bool.or_eq_true,beq_iff_eq,hz,false_or,Bool.and_eq_true,and_true,cons.injEq,cons_ne_nil]
  obtain ⟨more,rfl,-⟩ := hr.eq_cons he
  simp only [Spells,he,Bool.or_eq_true,beq_iff_eq,hz,false_or,Bool.and_eq_true,and_false,cons.injEq,cons_ne_nil]

theorem Reads.unique {T' : List (BitVec 8)} (h : Reads text t T) (h' : Reads text t T') : T=T' := by
  induction T generalizing t T' with
  | nil => exact (h'.eq_nil h).symm
  | cons c T ih =>
    obtain ⟨rfl,hne,hr⟩ := h
    obtain ⟨rest,rfl,hrest'⟩ := h'.eq_cons hne
    rw [ih hr hrest']

theorem Reads.padded (h : Reads text t T) (hn : n=t+T.length) : Reads (text.padded n) t T := by
  induction T generalizing t with
  | nil => exact if_neg (by rw [hn]; simp)
  | cons c T ih =>
    obtain ⟨hc,hne,hr⟩ := h
    rw [length_cons] at hn
    exact ⟨(Octets.padded_eq (by omega)).trans hc,hne,ih hr (by omega)⟩

theorem Reads.drop (h : Reads text t (u++r)) : Reads text (t+u.length) r := by
  induction u generalizing t with
  | nil => exact h
  | cons c u ih =>
    have hr := ih h.2.2
    have hs : t+1+u.length=t+(c::u).length := by
      rw [length_cons]
      omega
    exact hs ▸ hr

/-- A string begins with octets that are the same as those of a message. -/
def Begins (m : Message) (i n : ℕ) (T : List (BitVec 8)) : Prop :=
  ∃ u r,T=u++r ∧ u.map fold=(octetsAt m.octets i n).map fold

theorem labelEqText_spec (hl : i+n ≤ m.len) (h : Reads text t T) :
    ∃ b,labelEqText m text n i t=.ok b ∧ (b ↔ Begins m i n T) := by
  induction n generalizing i t T with
  | zero => exact ⟨true,rfl,iff_of_true rfl ⟨[],T,rfl,rfl⟩⟩
  | succ n ih =>
    unfold Begins
    rw [labelEqText,octetsAt_succ,map_cons]
    by_cases hz : text t=0
    · refine ⟨false,if_pos hz,iff_of_false Bool.false_ne_true ?_⟩
      rintro ⟨u,r,hur,hm⟩
      rw [h.eq_nil hz] at hur
      rw [(append_eq_nil_iff.1 hur.symm).1] at hm
      cases hm
    obtain ⟨rest,rfl,hr⟩ := h.eq_cons hz
    rw [if_neg hz,Message.read_ok (by omega)]
    by_cases hf : fold (m.octets i)=fold (text t)
    · obtain ⟨b,hb,hi⟩ := ih (by omega : i+1+n ≤ m.len) hr
      refine ⟨b,(if_neg (not_not.2 hf)).trans hb,hi.trans ?_⟩
      constructor
      · rintro ⟨u,r,rfl,hm⟩
        exact ⟨text t::u,r,rfl,by rw [map_cons,hf,hm]⟩
      · rintro ⟨u,r,hur,hm⟩
        cases u with
        | nil => cases hm
        | cons c u =>
          cases hur
          exact ⟨u,r,rfl,(cons.inj hm).2⟩
    · refine ⟨false,if_pos hf,iff_of_false nofun ?_⟩
      rintro ⟨u,r,hur,hm⟩
      cases u with
      | nil => cases hm
      | cons c u =>
        cases hur
        exact hf (cons.inj hm).1.symm

/-- The name at an offset unpacks, within the pointers and octets that are left, to labels a string spells. -/
def Agrees (m : Message) (left spent off : ℕ) (T : List (BitVec 8)) : Prop :=
  ∃ ls k,Unpacks m.octets m.len off ls k ∧ k≤left ∧ spent+wireLen ls≤255 ∧ Spells dot fold ls T

theorem Landing.agrees {left off o l : ℕ} (h : Landing m left off o l) :
    Agrees m left spent off T ↔ Agrees m l spent o T := by
  have hle := h.le
  constructor
  · rintro ⟨ls,k,hls,hk,hr⟩
    obtain ⟨j,rfl,hj⟩ := (h.same ls k).1 hls
    exact ⟨ls,j,hj,by omega,hr⟩
  · rintro ⟨ls,j,hls,hj,hr⟩
    exact ⟨ls,j+(left-l),(h.same ls _).2 ⟨j,rfl,hls⟩,by omega,hr⟩

theorem agrees_root {left off : ℕ} (hr : spent≤254) (ho : off < m.len) (hz : m.octets off=0) :
    Agrees m left spent off T ↔ Spells dot fold [] T := by
  unfold Agrees
  simp only [unpacks_zero ho hz]
  constructor
  · rintro ⟨ls,k,⟨rfl,rfl⟩,-,-,h⟩
    exact h
  · intro h
    have hw : wireLen []=1 := rfl
    exact ⟨[],0,⟨rfl,rfl⟩,zero_le _,by omega,h⟩

/-- A name that opens with a label has its octets in the message and the bound, and the string begins with it. -/
theorem Agrees.bounds {left off : ℕ} (hz : m.octets off≠0) (hp : m.octets off &&& 0xC0≠0xC0)
    (h : Agrees m left spent off T) : (m.octets off).toNat≤63 ∧ off+1+(m.octets off).toNat ≤ m.len ∧
      spent+(1+(m.octets off).toNat)+1≤255 ∧ Begins m (off+1) (m.octets off).toNat T := by
  obtain ⟨ls,k,hls,-,hw,hT⟩ := h
  obtain ⟨hm,hl,rest,rfl,-⟩ := (unpacks_label hz hp).1 hls
  obtain ⟨u,r,hur,hmp,-⟩ := hT
  rw [wireLen_cons,length_octetsAt] at hw
  have ho : 1≤wireLen rest := le_add_left _ _
  exact ⟨hm,hl,by omega,u,r,hur,hmp⟩

/-- Behind the label the string ends, or goes on with a dot and what agrees with the rest of the name. -/
theorem agrees_label {left off : ℕ} (hz : m.octets off≠0) (hp : m.octets off &&& 0xC0≠0xC0)
    (hm : (m.octets off).toNat≤63) (hl : off+1+(m.octets off).toNat ≤ m.len)
    (hu : u.map fold=(octetsAt m.octets (off+1) (m.octets off).toNat).map fold) : Agrees m left spent off (u++r) ↔
      (r=[] ∧ Agrees m left (spent+(1+(m.octets off).toNat)) (off+1+(m.octets off).toNat) [] ∨
        ∃ rest,r=dot::rest ∧ Agrees m left (spent+(1+(m.octets off).toNat)) (off+1+(m.octets off).toNat) rest) := by
  have hul : u.length=(octetsAt m.octets (off+1) (m.octets off).toNat).length := by
    simpa using congrArg length hu
  constructor
  · rintro ⟨ls,k,hls,hk,hw,hT⟩
    obtain ⟨-,-,rest,rfl,hr⟩ := (unpacks_label hz hp).1 hls
    rw [wireLen_cons,length_octetsAt] at hw
    refine ((spells_cons hul).1 hT).2.imp ?_ ?_
    · rintro ⟨rfl,hn⟩
      exact ⟨rfl,rest,k,hr,hk,by omega,hn⟩
    · rintro ⟨q,rfl,hq⟩
      exact ⟨q,rfl,rest,k,hr,hk,by omega,hq⟩
  · rintro (⟨rfl,rest,k,hr,hk,hw,hn⟩ | ⟨q,rfl,rest,k,hr,hk,hw,hq⟩)
    · refine ⟨_,k,.label hz hm hl hr,hk,?_,(spells_cons hul).2 ⟨hu,.inl ⟨rfl,hn⟩⟩⟩
      rw [wireLen_cons,length_octetsAt]
      omega
    · refine ⟨_,k,.label hz hm hl hr,hk,?_,(spells_cons hul).2 ⟨hu,.inr ⟨q,rfl,hq⟩⟩⟩
      rw [wireLen_cons,length_octetsAt]
      omega

theorem nameEqTextFrom_spec {left off : ℕ} (hrm : spent≤254) (ht : 256 ≤ spent+2*turns) (h : Reads text t T) :
    ∃ b,nameEqTextFrom m text turns left spent off t=.ok b ∧ (b ↔ Agrees m left spent off T) := by
  induction turns generalizing left spent off t T with
  | zero => omega
  | succ turns ih =>
    rw [nameEqTextFrom]
    rcases deref_spec m left off with ⟨hnn,hf⟩|⟨o,l,hsm,hl⟩
    · rw [hnn]
      refine ⟨false,rfl,iff_of_false nofun ?_⟩
      rintro ⟨ls,k,hls,hk,-⟩
      have := hf ls k hls
      omega
    rw [hl.agrees,hsm]
    show ∃ b,(m.read o >>= _)=_ ∧ _
    rw [Message.read_ok hl.lt]
    show ∃ b,ite _ _ _=_ ∧ _
    by_cases hz : m.octets o=0
    · have hm : ¬63<(m.octets o).toNat := by
        rw [hz]
        decide
      rw [if_neg hm,if_pos hz,agrees_root hrm hl.lt hz]
      exact ⟨_,rfl,h.root_iff⟩
    have hp : 0<(m.octets o).toNat := Nat.pos_of_ne_zero fun heq => hz (BitVec.eq_of_toNat_eq heq)
    have hbn := fun hT : Agrees m l spent o T => hT.bounds hz hl.length
    by_cases hm : 63<(m.octets o).toNat
    · exact ⟨false,if_pos hm,iff_of_false nofun fun hT => by have := hbn hT; omega⟩
    rw [if_neg hm,if_neg hz]
    by_cases hln : m.len<o+1+(m.octets o).toNat
    · exact ⟨false,if_pos hln,iff_of_false nofun fun hT => by have := hbn hT; omega⟩
    rw [if_neg hln]
    by_cases hs : 255 < spent+(1+(m.octets o).toNat)+1
    · exact ⟨false,if_pos hs,iff_of_false nofun fun hT => by have := hbn hT; omega⟩
    rw [if_neg hs]
    obtain ⟨same,hsa,hi⟩ := labelEqText_spec (by omega : o+1+(m.octets o).toNat ≤ m.len) h
    rw [hsa]
    show ∃ b,ite _ _ _=_ ∧ _
    cases same with
    | false => exact ⟨false,if_pos rfl,iff_of_false nofun fun hT => absurd (hi.2 (hbn hT).2.2.2) Bool.false_ne_true⟩
    | true =>
      obtain ⟨u,r,rfl,hmp⟩ := hi.1 rfl
      have hul : u.length=(m.octets o).toNat := by simpa using congrArg length hmp
      have hr : Reads text (t+(m.octets o).toNat) r := hul ▸ h.drop
      have hn : spent+(1+(m.octets o).toNat)≤254 ∧ 256 ≤ spent+(1+(m.octets o).toNat)+2*turns := by omega
      rw [if_neg nofun,agrees_label hz hl.length (by omega) (by omega) hmp]
      by_cases he : text (t+(m.octets o).toNat)=0
      · have hd : text (t+(m.octets o).toNat)≠dot := by
          rw [he]
          decide
        rw [if_neg hd,if_neg (not_not.2 he)]
        cases hr.eq_nil he
        obtain ⟨b,hb,hi⟩ := ih hn.1 hn.2 hr
        exact ⟨b,hb,hi.trans (by simp)⟩
      obtain ⟨rest,rfl,hrs⟩ := hr.eq_cons he
      by_cases hd : text (t+(m.octets o).toNat)=dot
      · rw [if_pos hd,hd]
        obtain ⟨b,hb,hi⟩ := ih hn.1 hn.2 hrs
        exact ⟨b,hb,hi.trans (by simp)⟩
      · rw [if_neg hd,if_pos he]
        exact ⟨false,rfl,iff_of_false nofun (by simp [hd])⟩

/-- The comparison of a name with a string ends, and says whether they agree. -/
theorem nameEqText_spec (off : ℕ) (h : Reads text 0 T) : ∃ b,nameEqText m off text=.ok b ∧ (b ↔ Agrees m 127 0 off T) :=
  nameEqTextFrom_spec (by omega) (by omega) h

theorem labelEqWire_spec {j : ℕ} (hi : i+n ≤ m.len) (hj : j+n ≤ m.len) : ∃ b,labelEqWire m n i j=.ok b ∧
      (b → (octetsAt m.octets i n).map fold=(octetsAt m.octets j n).map fold) := by
  induction n generalizing i j with
  | zero => exact ⟨true,rfl,fun _ => rfl⟩
  | succ n ih =>
    rw [labelEqWire,Message.read_ok (by omega),Message.read_ok (by omega),octetsAt_succ,octetsAt_succ,map_cons,map_cons]
    by_cases hf : fold (m.octets i)=fold (m.octets j)
    · obtain ⟨b,hb,hs⟩ := ih (by omega : i+1+n ≤ m.len) (by omega : j+1+n ≤ m.len)
      exact ⟨b,(if_neg (not_not.2 hf)).trans hb,fun h => by rw [hf,hs h]⟩
    · exact ⟨false,if_pos hf,nofun⟩

/-- Two offsets of a message hold the same name. -/
def Alike (m : Message) (a b : ℕ) : Prop :=
  ∃ ls ms k j,Unpacks m.octets m.len a ls k ∧ Unpacks m.octets m.len b ms j ∧ Same fold ls ms

theorem nameEqWireFrom_spec {leftA leftB : ℕ} (hr : spent≤254) (ht : 256 ≤ spent+2*turns) :
    ∃ same,nameEqWireFrom m turns leftA leftB spent a b=.ok same ∧ (same → Alike m a b) := by
  induction turns generalizing leftA leftB spent a b with
  | zero => omega
  | succ turns ih =>
    have hd : false → Alike m a b := nofun
    rw [nameEqWireFrom]
    rcases deref_spec m leftA a with ⟨hn,-⟩|⟨oa,la,hsomeA,hlandA⟩
    · rw [hn]
      exact ⟨false,rfl,hd⟩
    rw [hsomeA]
    rcases deref_spec m leftB b with ⟨hn,-⟩|⟨ob,lb,hsomeB,hlandB⟩
    · rw [hn]
      exact ⟨false,rfl,hd⟩
    rw [hsomeB]
    show ∃ same,(m.read oa >>= fun n => m.read ob >>= _)=_ ∧ _
    rw [Message.read_ok hlandA.lt,Message.read_ok hlandB.lt]
    show ∃ same,ite _ _ _=_ ∧ _
    -- names that are alike behind the pointers are alike
    have hb : ∀ ls ms k j,Unpacks m.octets m.len oa ls k → Unpacks m.octets m.len ob ms j → Same fold ls ms →
        Alike m a b := fun ls ms k j hls hms h =>
      ⟨ls,ms,_,_,(hlandA.same ls _).2 ⟨k,rfl,hls⟩,(hlandB.same ms _).2 ⟨j,rfl,hms⟩,h⟩
    by_cases heq : m.octets oa=m.octets ob
    · rw [if_neg (not_not.2 heq)]
      by_cases hz : m.octets oa=0
      · exact ⟨true,if_pos hz,fun _ => hb [] [] 0 0 (.root hlandA.lt hz) (.root hlandB.lt (heq ▸ hz)) (.refl _)⟩
      rw [if_neg hz]
      by_cases hm : 63<(m.octets oa).toNat
      · exact ⟨false,if_pos hm,hd⟩
      rw [if_neg hm]
      by_cases hl : m.len<oa+1+(m.octets oa).toNat ∨ m.len<ob+1+(m.octets oa).toNat
      · exact ⟨false,if_pos hl,hd⟩
      rw [if_neg hl]
      by_cases hs : 255 < spent+(1+(m.octets oa).toNat)+1
      · exact ⟨false,if_pos hs,hd⟩
      rw [if_neg hs]
      have hp : 0<(m.octets oa).toNat := Nat.pos_of_ne_zero fun h => hz (BitVec.eq_of_toNat_eq h)
      obtain ⟨same,hsm,hmp⟩ := labelEqWire_spec (by omega : oa+1+(m.octets oa).toNat ≤ m.len)
        (by omega : ob+1+(m.octets oa).toNat ≤ m.len)
      rw [hsm]
      show ∃ same,ite _ _ _=_ ∧ _
      cases same with
      | false => exact ⟨false,if_pos rfl,hd⟩
      | true =>
        rw [if_neg nofun]
        obtain ⟨same,hsm,ha⟩ := ih (by omega : spent+(1+(m.octets oa).toNat)≤254) (by omega)
        refine ⟨same,hsm,fun h => ?_⟩
        obtain ⟨ls,ms,k,j,hls,hms,hbt⟩ := ha h
        have hA := Unpacks.label hz (by omega) (by omega) hls
        rw [heq] at hms hmp hm hl
        have hB := Unpacks.label (heq ▸ hz) (by omega) (by omega) hms
        exact hb _ _ k j hA hB (same_cons.2 ⟨heq ▸ hmp rfl,hbt⟩)
    · exact ⟨false,if_pos heq,hd⟩

/-- The comparison of two names of a message ends, and finds only names that are alike. -/
theorem nameEqWire_spec {m : Message} : ∃ same,nameEqWire m a b=.ok same ∧ (same → Alike m a b) :=
  nameEqWireFrom_spec (by omega) (by omega)

/-- A dotted form that was measured is a string of labels none of which is empty. -/
structure Dotted (text : Octets) (t : ℕ) (T : List (BitVec 8)) : Prop where
  reads : Reads text t T
  ne : T≠[]
  label_ne : ∀ l∈labels dot T,l≠[]

theorem textWireLenFrom_spec {left label wire : ℕ} (h : textWireLenFrom text left i label wire=some (w,n)) :
    ∃ T,Reads text i T ∧ n=i+T.length ∧ (label=0 ∨ i≤253 → n≤254) ∧
      ∀ u,u.length=label → dot∉u → u++T≠[] ∧ ∀ l∈labels dot (u++T),l≠[] := by
  induction left generalizing i label wire with
  | zero => cases h
  | succ left ih =>
    rw [textWireLenFrom] at h
    by_cases hc : text i≠0 ∧ text i≠dot
    · rw [if_pos hc] at h
      split at h
      · cases h
      obtain ⟨T,hT,hn,hm,hlb⟩ := ih h
      refine ⟨text i::T,⟨rfl,hc.1,hT⟩,by rw [hn,length_cons]; omega,fun _ => hm (by omega),fun u hu hf => ?_⟩
      have hnx := hlb (u++[text i]) (by simp [hu]) (by simp [hf,Ne.symm hc.2])
      rwa [append_assoc] at hnx
    rw [if_neg hc] at h
    split at h
    · cases h
    rename_i hla
    split at h
    · cases h
    have hln : ∀ u : List (BitVec 8),u.length=label → u≠[] := by
      rintro u hu rfl
      exact hla (.inl hu.symm)
    by_cases he : text i=0
    · rw [if_pos he] at h
      cases h
      refine ⟨[],he,rfl,by omega,fun u hu hf => ?_⟩
      rw [append_nil,labels_single hf]
      exact ⟨hln u hu,fun l hl => mem_singleton.1 hl ▸ hln u hu⟩
    rw [if_neg he] at h
    have hd : text i=dot := by
      by_contra hne
      exact hc ⟨he,hne⟩
    by_cases hr : text (i+1)=0
    · rw [if_pos hr] at h
      cases h
      refine ⟨[dot],⟨hd,by decide,hr⟩,rfl,by omega,fun u hu hf => ?_⟩
      rw [labels_last hf]
      exact ⟨by simp,fun l hl => mem_singleton.1 hl ▸ hln u hu⟩
    rw [if_neg hr] at h
    obtain ⟨T,hT,hn,hm,hlb⟩ := ih h
    obtain ⟨hne,hw⟩ : T≠[] ∧ ∀ l∈labels dot T,l≠[] := hlb [] rfl not_mem_nil
    refine ⟨dot::T,⟨hd,by decide,hT⟩,by rw [hn,length_cons]; omega,fun _ => hm (.inl rfl),fun u hu hf => ⟨by simp,?_⟩⟩
    rw [labels_append hf hne]
    intro l hl
    rcases mem_cons.1 hl with rfl|hmm
    · exact hln l hu
    · exact hw l hmm

theorem textWireLen_spec (h : textWireLen text=some (w,n)) : ∃ T,Dotted text 0 T ∧ n=T.length ∧ n≤254 := by
  unfold textWireLen at h
  split at h
  · cases h
  obtain ⟨T,hT,hn,hm,hl⟩ := textWireLenFrom_spec h
  obtain ⟨hne,hw⟩ := hl [] rfl not_mem_nil
  exact ⟨T,⟨hT,hne,hw⟩,by omega,hm (.inl rfl)⟩

theorem fold_eq_dot (c : BitVec 8) : fold c=dot ↔ c=dot := by
  revert c
  decide

end Text

end IdemIp.Dns
