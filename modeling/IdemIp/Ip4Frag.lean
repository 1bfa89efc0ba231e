import IdemIp.IpHeaders
import IdemIp.OptionList
import IdemIp.Pieces
import Mathlib.Data.Nat.Bitwise

/-!
# Cutting an IPv4 datagram

The cursor `ip4_frag.c` walks a datagram with. `next` writes the fragment it stands
on: a valid header with the datagram's options or the copied ones, and the data
behind the cursor. Lengths and offsets are plain numbers here; the index wraps as it
does in the source.
-/

namespace IdemIp.Ip4Frag

/-- Why a call was refused, `IdemIpIp4FragError`. -/
inductive Error
  | none | df | header | mtu | offset | room | done | state
deriving DecidableEq

/-- The split in progress, `Ip4FragCtx`. -/
structure Ctx where
  /-- `clear` ran. -/
  ready : Bool
  dgram : Octets
  (dataLen cursor chunk0 chunk units index hdrLen hdr2Len : ℕ)
  (omf split opened done : Bool)

/-- Results of a call, the members of `Ip4FragIo` behind its operands. -/
structure Io where
  status : Status
  err : Error
  (split more : Bool)
  (index units offset len hdrLen dataLen : ℕ)

/-- The caller's borrow. -/
structure Work where
  io : Io
  ctx : Ctx

variable (w : Work) (c : Ctx) (dgram : Octets)

/-- Operands of `begin`, `Ip4FragBeginArgs`. -/
structure BeginArgs where
  dgram : Octets
  (len mtu : ℕ)

/-- Operands of `next`, `Ip4FragNextArgs`. -/
structure NextArgs where
  out : Octets
  cap : ℕ

/-- Octets of the option at an offset, or nothing where the walk ends. -/
def optionStep (hdrLen i : ℕ) : Option ℕ :=
  if hdrLen ≤ i then none
  else if dgram i=0 then none
  else if dgram i=1 then some 1
  else if hdrLen ≤ i+1 then none
  else if (dgram (i+1)).toNat<2 ∨ hdrLen < i+(dgram (i+1)).toNat then none
  else some (dgram (i+1)).toNat

/-- The loop of `ip4_frag_copy_options` from an offset on; the options go behind the `at_` octets of the buffer. -/
def copyLoop (dgram : Octets) (hdrLen at_ : ℕ) : ℕ → ℕ → ℕ → Octets → ℕ×Octets
  | 0,_,copied,out => (copied,out)
  | fuel+1,i,copied,out =>
    match optionStep dgram hdrLen i with
    | none => (copied,out)
    | some n =>
      if dgram i &&& 0x80≠0 then
        copyLoop dgram hdrLen at_ fuel (i+n) (copied+n) (out.copy (at_+copied) (dgram.drop i) n)
      else copyLoop dgram hdrLen at_ fuel (i+n) copied out

/-- Copy the options with the copied flag and count their octets, `ip4_frag_copy_options`. -/
def copyOptions (hdrLen : ℕ) (out : Octets) (at_ : ℕ) : ℕ×Octets :=
  copyLoop dgram hdrLen at_ hdrLen 20 0 out

/-- What a datagram that may not be cut, or need not be, leaves in the context. -/
def Ctx.fill : Ctx :=
  let dataLen := Ip4.totalLen dgram-Ip4.hdrLen dgram
  {c with dgram,dataLen,cursor := 0,chunk0 := dataLen,chunk := dataLen,units := Ip4.fragUnits dgram,index := 0,
          hdrLen := Ip4.hdrLen dgram,hdr2Len := Ip4.hdrLen dgram,omf := Ip4.mf dgram,split := false,opened := false,done := false}

/-- The header and the data octets of the fragments behind the first. -/
def Ctx.cut (mtu : ℕ) : Ctx :=
  let kept := (copyOptions c.dgram c.hdrLen Octets.zero 0).1
  let hdr2Len := (20+kept+3)/4*4
  {c with hdr2Len,chunk0 := (mtu-c.hdrLen)/8*8,chunk := (mtu-hdr2Len)/8*8,split := true}

/-- The fragmentation test, `ip4_frag_take`. -/
def take (a : BeginArgs) : Work :=
  let shut : Ctx := {w.ctx with opened := false,done := false}
  let refuse (err : Error) (c : Ctx) : Work := ⟨{w.io with err},c⟩
  let accept (c : Ctx) : Work := ⟨{w.io with split := c.split,status := .ok},{c with opened := true}⟩
  let dataLen := Ip4.totalLen a.dgram-Ip4.hdrLen a.dgram
  if a.len<20 ∨ Ip4.verify a.dgram a.len=false then refuse .header shut
  else if a.mtu<68 then refuse .mtu shut
  else if Ip4.mf a.dgram=true ∧ (dataLen=0 ∨ dataLen%8≠0) then refuse .header shut
  else
    let whole := shut.fill a.dgram
    if a.mtu<Ip4.totalLen a.dgram then
      if Ip4.df a.dgram then refuse .df whole
      else
        let cut := whole.cut a.mtu
        if 0x1FFF < cut.units+cut.dataLen/8 then refuse .offset {cut with split := false}
        else accept cut
    else accept whole

/-- The fragment the cursor stands on is the first. -/
def Ctx.first : Bool := c.index==0

def Ctx.hdrNow : ℕ := if !c.split || c.first then c.hdrLen else c.hdr2Len

def Ctx.chunkNow : ℕ :=
  if c.split then
    let room := if c.first then c.chunk0 else c.chunk
    let left := c.dataLen-c.cursor
    if room<left then room else left
  else c.dataLen

def Ctx.lenNow : ℕ := c.hdrNow+c.chunkNow

def Ctx.unitsNow : ℕ := c.units+c.cursor/8

def Ctx.moreNow : Bool := if c.cursor+c.chunkNow < c.dataLen then true else c.omf

/-- The flags and the offset as the header field holds them. -/
def flagsOf (more : Bool) (units : ℕ) : BitVec 16 := (if more then 0x2000 else 0) ||| BitVec.ofNat 16 units

/-- The original header with its length, its flags and its checksum corrected, `ip4_frag_emit_first`. -/
def emitFirst (out : Octets) (chunk : ℕ) : Octets :=
  let out := out.copy 0 c.dgram c.hdrLen
  let out := Ip4.setTotalLen out (c.hdrLen+chunk)
  let out := Ip4.setFlagsFrag out (flagsOf true c.units)
  let out := Ip4.recksum out
  out.copy c.hdrLen (c.dgram.drop c.hdrLen) chunk

/-- The reduced header and the data the cursor stands on, `ip4_frag_emit_rest`. -/
def emitRest (out : Octets) (chunk units : ℕ) (more : Bool) : Octets :=
  let out := out.copy 0 c.dgram 20
  let (kept,out) := copyOptions c.dgram c.hdrLen out 20
  let out := out.fill (20+kept) 0 (c.hdr2Len-20-kept)
  let out := Ip4.setVerIhl out (c.hdr2Len/4)
  let out := Ip4.setTotalLen out (c.hdr2Len+chunk)
  let out := Ip4.setFlagsFrag out (flagsOf more units)
  let out := Ip4.recksum out
  out.copy c.hdr2Len (c.dgram.drop (c.hdrLen+c.cursor)) chunk

/-- The buffer with the fragment the cursor stands on. -/
def Ctx.emit (out : Octets) : Octets :=
  if !c.split then out.copy 0 c.dgram c.lenNow
  else if c.first then emitFirst c out c.chunkNow
  else emitRest c out c.chunkNow c.unitsNow c.moreNow

/-- The cursor behind that fragment. -/
def Ctx.advance : Ctx :=
  let cursor := c.cursor+c.chunkNow
  {c with cursor,index := (c.index+1)%2^16,done := c.dataLen ≤ cursor}

/-- The fragment the cursor stands on, into the caller's buffer, `ip4_frag_write`. -/
def write (a : NextArgs) : Work×Octets :=
  let c := w.ctx
  if c.opened=false then (⟨{w.io with err := .state},c⟩,a.out)
  else if c.done then (⟨{w.io with err := .done},c⟩,a.out)
  else if a.cap < c.lenNow then (⟨{w.io with err := .room},c⟩,a.out)
  else
    (⟨{w.io with index := c.index,units := c.unitsNow,offset := c.unitsNow*8,more := c.moreNow,len := c.lenNow,
                  hdrLen := c.hdrNow,dataLen := c.chunkNow,status := .ok},c.advance⟩,c.emit a.out)

/-- Results before a call ran. -/
def Io.reset (io : Io) (err : Error) : Io :=
  {io with status := .err,err,more := false,index := 0,units := 0,offset := 0,len := 0,hdrLen := 0,dataLen := 0}

/-- A context of zeros with the mark, `idemip_ip4_frag_clear`. -/
def clear : Work :=
  ⟨{w.io with status := .ok},⟨true,Octets.zero,0,0,0,0,0,0,0,0,false,false,false,false⟩⟩

/-- Take a datagram to cut, `idemip_ip4_frag_begin`. -/
def begin (a : BeginArgs) : Work :=
  let io := {w.io with split := false}
  if w.ctx.ready then take ⟨io.reset .none,w.ctx⟩ a else ⟨io.reset .state,w.ctx⟩

/-- Write the next fragment, `idemip_ip4_frag_next`; the buffer is beside the borrow. -/
def next (a : NextArgs) : Work×Octets :=
  if w.ctx.ready then write ⟨w.io.reset .none,w.ctx⟩ a else (⟨w.io.reset .state,w.ctx⟩,a.out)

end IdemIp.Ip4Frag

namespace IdemIp.Octets

open List

theorem ofList_span {p : Octets} {n i : ℕ} (l : List (BitVec 8)) (h : i<n) : (ofList (p.span n++l)) i=p i := by
  unfold ofList
  rw [getD_eq_getElem?_getD,getElem?_append_left (by rwa [length_span]),span,getElem?_map,getElem?_range h]
  rfl

theorem ofList_behind {p : Octets} {n i : ℕ} (l : List (BitVec 8)) (h : n ≤ i) : (ofList (p.span n++l)) i=ofList l (i-n) := by
  unfold ofList
  rw [getD_eq_getElem?_getD,getElem?_append_right (by rwa [length_span]),length_span,getD_eq_getElem?_getD]

theorem copy_copy (p src : Octets) (off n : ℕ) (l : List (BitVec 8)) :
    (p.copy off src n).copy (off+n) (ofList l) l.length=p.copy off (ofList (src.span n++l)) (n+l.length) := by
  funext i
  by_cases h1 : i<off
  · rw [copy_outside (.inl (by omega)),copy_outside (.inl h1),copy_outside (.inl h1)]
  by_cases h2 : i<off+n
  · rw [copy_outside (.inl h2),copy_inside (by omega) h2,copy_inside (by omega) (by omega),ofList_span l (by omega)]
  by_cases h3 : i<off+n+l.length
  · rw [copy_inside (by omega) h3,copy_inside (by omega) (by omega),ofList_behind l (by omega),Nat.sub_sub]
  · rw [copy_outside (by omega),copy_outside (by omega),copy_outside (by omega)]

theorem span_ofList (l : List (BitVec 8)) : (ofList l).span l.length=l := by
  induction l with
  | nil => rfl
  | cons x l ih =>
    have ht : (ofList (x::l)).drop 1=ofList l := by
      funext i
      unfold drop ofList
      rw [Nat.add_comm]
      rfl
    rw [length_cons,span_succ,ht,ih]
    rfl

theorem span_split {p : Octets} {n : ℕ} {o l : List (BitVec 8)} (h : p.span n=o++l) :
    o.length≤n ∧ o=p.span o.length ∧ l=(p.drop o.length).span (n-o.length) := by
  have hln := congrArg length h
  rw [length_span,length_append] at hln
  have hs : p.span n=p.span o.length++(p.drop o.length).span (n-o.length) := by
    rw [←span_add]
    congr 1
    omega
  rw [hs] at h
  obtain ⟨ho,hl⟩ := append_inj h (length_span)
  exact ⟨by omega,ho.symm,hl.symm⟩

end IdemIp.Octets

namespace IdemIp.Ip4

/-- The option area of a header. -/
def options (h : Octets) : List (BitVec 8) := (h.drop 20).span (hdrLen h-20)

/-- The data of a datagram or of a fragment of one. -/
def payload (h : Octets) : List (BitVec 8) := (h.drop (hdrLen h)).span (payloadLen h)

end IdemIp.Ip4

namespace IdemIp.Ip4Frag

open OptionList Pieces Ip4 Octets Ctx

section Options

variable {dgram out : Octets} {hdrLen i n : ℕ}

theorem optionStep_le (h : optionStep dgram hdrLen i=some n) : 0<n ∧ i+n≤hdrLen := by
  unfold optionStep at h
  split_ifs at h with h1 h2 h3 h4 h5
  · cases h
    omega
  · cases h
    omega

/-- The octets of the options the walk copies. -/
def kept (dgram : Octets) (hdrLen : ℕ) : ℕ → ℕ → List (BitVec 8)
  | 0,_ => []
  | fuel+1,i =>
    match optionStep dgram hdrLen i with
    | none => []
    | some n =>
      if dgram i &&& 0x80≠0 then (dgram.drop i).span n++kept dgram hdrLen fuel (i+n) else kept dgram hdrLen fuel (i+n)

theorem length_kept {fuel : ℕ} : (kept dgram hdrLen fuel i).length≤hdrLen-i := by
  induction fuel generalizing i with
  | zero => exact Nat.zero_le _
  | succ fuel ih =>
    unfold kept
    cases hs : optionStep dgram hdrLen i with
    | none => exact Nat.zero_le _
    | some n =>
      have hn := optionStep_le hs
      have hr := @ih (i+n)
      dsimp only
      split_ifs
      · rw [List.length_append,length_span]
        omega
      · omega

theorem copyLoop_eq (at_ fuel copied : ℕ) : copyLoop dgram hdrLen at_ fuel i copied out=
    (copied+(kept dgram hdrLen fuel i).length,
      out.copy (at_+copied) (ofList (kept dgram hdrLen fuel i)) (kept dgram hdrLen fuel i).length) := by
  induction fuel generalizing i copied out with
  | zero =>
    refine Prod.ext rfl ?_
    funext j
    exact (copy_outside (by rw [kept,List.length_nil]; omega)).symm
  | succ fuel ih =>
    unfold copyLoop kept
    cases hs : optionStep dgram hdrLen i with
    | none =>
      refine Prod.ext rfl ?_
      funext j
      exact (copy_outside (by rw [List.length_nil]; omega)).symm
    | some n =>
      dsimp only
      split_ifs with hc
      · rw [ih,List.length_append,length_span]
        refine Prod.ext (Nat.add_assoc _ _ _) ?_
        rw [←Nat.add_assoc,copy_copy]
      · exact ih _

theorem kept_lists {fuel : ℕ} {os : List (List (BitVec 8))} (hf : hdrLen ≤ i+fuel)
    (h : Lists ((dgram.drop i).span (hdrLen-i)) os) : kept dgram hdrLen fuel i=(os.filter copied).flatten := by
  induction fuel generalizing i os with
  | zero =>
    rw [show hdrLen-i=0 by omega] at h
    cases h
    rfl
  | succ fuel ih =>
    by_cases hi : hdrLen ≤ i
    · rw [show hdrLen-i=0 by omega] at h
      cases h
      unfold kept optionStep
      rw [if_pos hi]
      rfl
    obtain ⟨m,hm⟩ : ∃ m,hdrLen-i=m+1 := ⟨hdrLen-i-1,by omega⟩
    rw [hm,span_succ,drop_drop] at h
    generalize hl : (dgram.drop i) 0::(dgram.drop (i+1)).span m=l at h
    cases h with
    | nil => cases hl
    | eol pad =>
      have h0 : dgram i=0 := (List.cons.inj hl).1
      unfold kept optionStep
      rw [if_neg hi,if_pos h0]
      rfl
    | @nop l os h =>
      obtain ⟨h1,rfl⟩ := List.cons.inj hl
      have h1 : dgram i=1 := h1
      have hr := ih (i := i+1) (by omega) (by rw [show hdrLen-(i+1)=m by omega]; exact h)
      unfold kept optionStep
      rw [if_neg hi,if_neg (by rw [h1]; decide),if_pos h1]
      dsimp only
      rw [h1,if_neg nofun,hr]
      rfl
    | @long t n o l os h0 h1 hn h =>
      obtain ⟨ht,hr⟩ := List.cons.inj hl
      have ht : dgram i=t := ht
      -- the length octet lies in the header, and so does the option
      obtain ⟨k,rfl⟩ : ∃ k,m=k+1 := by
        refine ⟨m-1,?_⟩
        have hln := congrArg List.length hr
        rw [length_span,List.length_cons] at hln
        omega
      rw [span_succ,drop_drop] at hr
      obtain ⟨hnc,htl⟩ := List.cons.inj hr
      have hnc : dgram (i+1)=n := hnc
      obtain ⟨hle,ho,hl⟩ := span_split htl
      rw [drop_drop,show i+1+1+o.length=i+n.toNat by omega,show k-o.length=hdrLen-(i+n.toNat) by omega] at hl
      rw [hl] at h
      have hls := ih (i := i+n.toNat) (by omega) h
      have hop : (dgram.drop i).span n.toNat=t::n::o := by
        rw [hn,span_succ,span_succ,drop_drop,drop_drop]
        exact congrArg₂ List.cons ht (congrArg₂ List.cons hnc ho.symm)
      unfold kept optionStep
      rw [ht,hnc,if_neg hi,if_neg h0,if_neg h1,if_neg (by omega),if_neg (by omega)]
      dsimp only
      rw [hls,hop,List.filter_cons]
      by_cases hc : t &&& 0x80=0
      · rw [if_neg (by simpa using hc),if_neg (by simpa [copied] using hc)]
      · rw [if_pos hc,if_pos (by simpa [copied] using hc)]
        rfl

end Options

section Flags

variable {more : Bool} {units : ℕ}

theorem toNat_flagsOf (h : units≤0x1FFF) : (flagsOf more units).toNat=2^13*more.toNat+units := by
  have hu : (BitVec.ofNat 16 units).toNat=units := by
    rw [BitVec.toNat_ofNat]
    omega
  rw [flagsOf,BitVec.toNat_or,hu,Nat.two_pow_add_eq_or_of_lt (by omega)]
  cases more <;> rfl

theorem flagsOf_units (h : units≤0x1FFF) : (flagsOf more units &&& 0x1FFF).toNat=units := by
  rw [BitVec.toNat_and,toNat_flagsOf h]
  have hm := Nat.and_two_pow_sub_one_eq_mod (2^13*more.toNat+units) 13
  refine hm.trans ?_
  omega

theorem flagsOf_mf (h : units≤0x1FFF) : (flagsOf more units &&& 0x2000 != 0)=more := by
  have ha : (flagsOf more units &&& 0x2000).toNat=((2^13*more.toNat+units).testBit 13).toNat*2^13 := by
    rw [BitVec.toNat_and,toNat_flagsOf h]
    exact Nat.and_two_pow _ 13
  have hb : (2^13*more.toNat+units).testBit 13=more := by
    rw [Nat.testBit_eq_decide_div_mod_eq,show (2^13*more.toNat+units)/2^13=more.toNat by omega]
    cases more <;> rfl
  rw [hb] at ha
  rw [Bool.eq_iff_iff,bne_iff_ne,ne_eq,←BitVec.toNat_inj,ha]
  cases more <;> decide

end Flags

/-- Header octets behind the first fragment: the fixed ones and the copied options, in whole words. -/
def reducedLen (h : Octets) : ℕ := (20+(kept h (Ip4.hdrLen h) (Ip4.hdrLen h) 20).length+3)/4*4

/-- What a fragment is, by where the cursor stood when it was written. -/
structure Fragment (h : Octets) (c : Ctx) (f : Octets) : Prop where
  valid : Ip4.verify f c.lenNow
  totalLen : Ip4.totalLen f=c.lenNow
  hdrLen : Ip4.hdrLen f=c.hdrNow
  ident : Ip4.ident f=Ip4.ident h
  proto : Ip4.proto f=Ip4.proto h
  src : Ip4.src f=Ip4.src h
  dst : Ip4.dst f=Ip4.dst h
  units : Ip4.fragUnits f=c.unitsNow
  mf : Ip4.mf f=c.moreNow
  payload : Ip4.payload f=(h.drop (Ip4.hdrLen h+c.cursor)).span c.chunkNow
  first : c.index=0 → Ip4.options f=Ip4.options h
  /-- The others have those that are copied. -/
  rest : c.index≠0 → ∀ os,Lists (Ip4.options h) os → Lists (Ip4.options f) (os.filter copied)

/-- A context a datagram was taken into, and where its cursor stands. -/
structure Open (h : Octets) (mtu : ℕ) (c : Ctx) : Prop where
  ready : c.ready
  opened : c.opened
  dgram : c.dgram=h
  hdrLen : c.hdrLen=Ip4.hdrLen h
  dataLen : c.dataLen=Ip4.payloadLen h
  units : c.units=Ip4.fragUnits h
  omf : c.omf=Ip4.mf h
  valid : Ip4.verify h (Ip4.totalLen h)
  least : 68≤ mtu
  /-- A fragment with others behind it is whole units. -/
  whole : Ip4.mf h → Ip4.payloadLen h%8=0
  split : c.split ↔ mtu<Ip4.totalLen h
  hdr2Len : c.split → c.hdr2Len=reducedLen h
  chunk0 : c.split → c.chunk0=(mtu-Ip4.hdrLen h)/8*8
  chunk : c.split → c.chunk=(mtu-reducedLen h)/8*8
  field : c.split → Ip4.fragUnits h+Ip4.payloadLen h/8≤0x1FFF
  /-- Between two cuts it stands at a unit, and at the first one only before any was made. -/
  between : c.split → c.done=false → c.cursor < c.dataLen ∧ c.cursor%8=0 ∧ c.index ≤ c.cursor/8 ∧ (c.index=0 → c.cursor=0)
  /-- A datagram that is not cut is written at once. -/
  alone : c.split=false → c.done=false → c.cursor=0 ∧ c.index=0

section Contexts

variable {h : Octets} {mtu : ℕ} {c : Ctx}

theorem reducedLen_le (h : Octets) (h20 : 20≤hdrLen h) : 20 ≤ reducedLen h ∧ reducedLen h≤hdrLen h ∧ reducedLen h%4=0 ∧
      20+(kept h (hdrLen h) (hdrLen h) 20).length ≤ reducedLen h := by
  have hk : (kept h (hdrLen h) (hdrLen h) 20).length≤hdrLen h-20 := length_kept
  obtain ⟨-,hm⟩ := hdrLen_le h
  unfold reducedLen
  omega

variable (ho : Open h mtu c)
include ho

theorem Open.lengths :
    20≤Ip4.hdrLen h ∧ Ip4.hdrLen h≤60 ∧ Ip4.hdrLen h+Ip4.payloadLen h=Ip4.totalLen h ∧ Ip4.totalLen h<2^16 := by
  obtain ⟨h20,hle,-⟩ := verify_bounds ho.valid
  unfold payloadLen
  exact ⟨h20,(hdrLen_le h).1,by omega,totalLen_lt h⟩

/-- A cut leaves whole units behind it or nothing, and the fragment fits the MTU. -/
theorem Open.chunkNow (hd : c.done=false) : c.lenNow ≤ mtu ∧ (c.cursor+c.chunkNow=c.dataLen ∨
      8 ≤ c.chunkNow ∧ c.chunkNow%8=0 ∧ c.cursor+c.chunkNow < c.dataLen ∧ c.split) := by
  obtain ⟨h20,h60,ht,-⟩ := ho.lengths
  have hm := ho.least
  have hdt := ho.dataLen
  have hh := ho.hdrLen
  unfold Ctx.lenNow Ctx.hdrNow Ctx.chunkNow
  cases hs : c.split with
  | false =>
    obtain ⟨hc,-⟩ := ho.alone hs hd
    have hle : ¬mtu<totalLen h := fun hlt => Bool.false_ne_true (hs.symm.trans (ho.split.2 hlt))
    simp only [Bool.not_false,Bool.true_or,if_true,Bool.false_eq_true,if_false]
    omega
  | true =>
    obtain ⟨hlt,hu,-,-⟩ := ho.between hs hd
    obtain ⟨hr20,hr,-,-⟩ := reducedLen_le h h20
    have hh2 := ho.hdr2Len hs
    have hc0 := ho.chunk0 hs
    have hc1 := ho.chunk hs
    simp only [Bool.not_true,Bool.false_or,if_true,and_true]
    cases hf : c.first with
    | true =>
      split_ifs <;> omega
    | false =>
      split_ifs <;> omega

theorem Open.advance (hd : c.done=false) : Open h mtu c.advance := by
  obtain ⟨-,hc⟩ := ho.chunkNow hd
  obtain ⟨-,-,ht,hlt⟩ := ho.lengths
  refine ⟨ho.ready,ho.opened,ho.dgram,ho.hdrLen,ho.dataLen,ho.units,ho.omf,ho.valid,ho.least,ho.whole,ho.split,ho.hdr2Len,
    ho.chunk0,ho.chunk,ho.field,fun hs hd' => ?_,fun hs hd' => ?_⟩
  · have hl : ¬c.dataLen ≤ c.cursor+c.chunkNow := of_decide_eq_false hd'
    obtain ⟨hcr,hu,hi,-⟩ := ho.between hs hd
    have hdt := ho.dataLen
    show c.cursor+c.chunkNow < c.dataLen ∧ (c.cursor+c.chunkNow)%8=0 ∧ (c.index+1)%2^16≤(c.cursor+c.chunkNow)/8 ∧
      ((c.index+1)%2^16=0 → c.cursor+c.chunkNow=0)
    omega
  · have hl : ¬c.dataLen ≤ c.cursor+c.chunkNow := of_decide_eq_false hd'
    rcases hc with he|⟨-,-,-,hs'⟩
    · exact (hl he.ge).elim
    · cases (show c.split=false from hs).symm.trans hs'

omit ho in
/-- Fields of a header that was corrected give the fragment, once its octets behind the header are known. -/
theorem fragment_of_corrected {b f : Octets} {units : ℕ} {more : Bool} (hun : units≤0x1FFF)
    (hc : Ip4.Corrected b c.lenNow (flagsOf more units) f) (hh : hdrLen b=c.hdrNow) (hu : units=c.unitsNow)
    (hm : more=c.moreNow) (hb : ident b=ident h ∧ proto b=proto h ∧ src b=src h ∧ dst b=dst h)
    (hd : ∀ i < c.chunkNow,f (c.hdrNow+i)=h (hdrLen h+c.cursor+i)) (hf : c.index=0 → options f=options h)
    (hr : c.index≠0 → ∀ os,Lists (options h) os → Lists (options f) (os.filter copied)) : Fragment h c f := by
  have hl : hdrLen f=c.hdrNow := hc.hdrLen.trans hh
  refine ⟨hc.valid,hc.totalLen,hl,hc.ident.trans hb.1,hc.proto.trans hb.2.1,hc.src.trans hb.2.2.1,hc.dst.trans hb.2.2.2,?_,?_,?_,
    hf,hr⟩
  · unfold fragUnits
    rw [hc.flagsFrag,flagsOf_units hun,hu]
  · unfold mf
    rw [hc.flagsFrag,flagsOf_mf hun,hm]
  · unfold payload payloadLen
    rw [hl,hc.totalLen,show c.lenNow-c.hdrNow=c.chunkNow from Nat.add_sub_cancel_left _ _]
    exact span_congr hd

theorem Open.unitsNow (hs : c.split) (hd : c.done=false) : c.unitsNow≤0x1FFF := by
  have hf := ho.field hs
  obtain ⟨hlt,-⟩ := ho.between hs hd
  have hdt := ho.dataLen
  have hu := ho.units
  unfold Ctx.unitsNow
  omega

theorem Open.emit_whole (hs : c.split=false) (hd : c.done=false) (out : Octets) : Fragment h c (c.emit out) := by
  obtain ⟨h20,-,ht,-⟩ := ho.lengths
  obtain ⟨hcr,hin⟩ := ho.alone hs hd
  have hh : c.hdrNow=Ip4.hdrLen h := by
    unfold hdrNow
    rw [hs,Bool.not_false,Bool.true_or,if_pos rfl,ho.hdrLen]
  have hc : c.chunkNow=payloadLen h := by
    unfold Ctx.chunkNow
    rw [hs,if_neg nofun,ho.dataLen]
  have hl : c.lenNow=totalLen h := by
    unfold lenNow
    rw [hh,hc,ht]
  obtain ⟨f,hf⟩ : ∃ f,c.emit out=f := ⟨_,rfl⟩
  have hsm : ∀ i<totalLen h,f i=h i := by
    intro i hi
    rw [←hf]
    unfold emit
    rw [hs,Bool.not_false,if_pos rfl,hl,copy_inside (Nat.zero_le i) (by omega),ho.dgram,Nat.sub_zero]
  rw [hf]
  have hfl : Ip4.SameFields f h := sameFields fun i hi => hsm i (by omega)
  refine ⟨?_,hfl.totalLen.trans hl.symm,hfl.hdrLen.trans hh.symm,hfl.ident,hfl.proto,hfl.src,hfl.dst,?_,?_,
    ?_,fun _ => ?_,fun hne => (hne hin).elim⟩
  · exact verify_congr ho.valid (fun i hi => hsm i (by omega)) hl.ge
  · rw [hfl.fragUnits,Ctx.unitsNow,ho.units,hcr,Nat.zero_div,Nat.add_zero]
  · rw [hfl.mf,moreNow,hcr,hc,ho.dataLen,if_neg (by omega),ho.omf]
  · unfold payload payloadLen
    rw [hfl.hdrLen,hfl.totalLen,hcr,hc]
    exact span_congr fun i hi => hsm (Ip4.hdrLen h+i) (by omega)
  · unfold options
    rw [hfl.hdrLen]
    exact span_congr fun i hi => hsm (20+i) (by omega)

theorem Open.emit_first (hs : c.split) (hd : c.done=false) (hi : c.index=0) (out : Octets) : Fragment h c (c.emit out) := by
  obtain ⟨h20,h60,ht,hlt⟩ := ho.lengths
  obtain ⟨hlf,-,-,hz⟩ := ho.between hs hd
  have hcr := hz hi
  have hfr : c.first := by
    unfold first
    rw [hi]
    rfl
  have hh : c.hdrNow=Ip4.hdrLen h := by
    unfold hdrNow
    rw [hfr,Bool.or_true,if_pos rfl,ho.hdrLen]
  have hm : c.moreNow := by
    have hsp := ho.split.1 hs
    have hch : c.chunkNow≤(mtu-Ip4.hdrLen h)/8*8 := by
      unfold Ctx.chunkNow
      rw [hs,hfr,if_pos rfl]
      dsimp only
      rw [if_pos rfl,ho.chunk0 hs]
      split_ifs <;> omega
    have hdt := ho.dataLen
    unfold moreNow
    rw [if_pos (by omega)]
  have hct := ho.chunkNow hd
  have hdt := ho.dataLen
  have hl : c.lenNow=c.hdrLen+c.chunkNow := by
    unfold lenNow
    rw [hh,ho.hdrLen]
  obtain ⟨b,hb⟩ : ∃ b,out.copy 0 c.dgram c.hdrLen=b := ⟨_,rfl⟩
  have hbs : ∀ i<Ip4.hdrLen h,b i=h i := by
    intro i hi
    rw [←hb,copy_inside (Nat.zero_le i) (by rw [ho.hdrLen]; omega),ho.dgram,Nat.sub_zero]
  have hf : Ip4.SameFields b h := sameFields fun i hi => hbs i (by omega)
  have he : c.emit out=(recksum (setFlagsFrag (setTotalLen b c.lenNow) (flagsOf true c.units))).copy c.hdrLen
      (h.drop (Ip4.hdrLen h)) c.chunkNow := by
    unfold emit emitFirst
    rw [hs,hfr,Bool.not_true,if_neg nofun,if_pos rfl,hl,hb,ho.dgram,ho.hdrLen]
  have hu : c.units=c.unitsNow := by
    rw [Ctx.unitsNow,hcr,Nat.zero_div,Nat.add_zero]
  have hv : version h=4 := (verify_iff.1 ho.valid).1
  have hc : Ip4.Corrected b c.lenNow (flagsOf true c.units) (c.emit out) := by
    refine corrected (hf.version.trans hv) (by rw [hf.hdrLen]; exact h20) (by rw [hf.hdrLen,hl,ho.hdrLen]; omega)
      (by rw [hl,ho.hdrLen]; omega) fun i hi => ?_
    rw [he]
    exact copy_outside (.inl (by rw [ho.hdrLen,←hf.hdrLen]; exact hi))
  refine fragment_of_corrected (hu ▸ ho.unitsNow hs hd) hc (hf.hdrLen.trans hh.symm) hu hm.symm
    ⟨hf.ident,hf.proto,hf.src,hf.dst⟩ (fun i hi => ?_) (fun _ => ?_) fun hne => (hne hi).elim
  · rw [he,hh,ho.hdrLen,copy_inside (by omega) (by omega),hcr,Nat.add_sub_cancel_left]
    rfl
  · unfold options
    rw [hc.hdrLen,hf.hdrLen]
    refine span_congr fun i hi => ?_
    exact (hc.options (20+i) (by omega) (by rw [hf.hdrLen]; omega)).trans (hbs (20+i) (by omega))

/-- The reduced header before its length and flags are corrected. -/
def reduced (h out : Octets) : Octets :=
  let l := kept h (Ip4.hdrLen h) (Ip4.hdrLen h) 20
  Ip4.setVerIhl ((((out.copy 0 h 20).copy 20 (Octets.ofList l) l.length).fill (20+l.length) 0 (reducedLen h-20-l.length)))
    (reducedLen h/4)

omit ho in
theorem reduced_fields (h20 : 20≤hdrLen h) {out : Octets} :
    version (reduced h out)=4 ∧ hdrLen (reduced h out)=reducedLen h ∧ (∀ i,1 ≤ i → i<20 → (reduced h out) i=h i) ∧
      ((reduced h out).drop 20).span (reducedLen h-20)=kept h (hdrLen h) (hdrLen h) 20++
        List.replicate (reducedLen h-20-(kept h (hdrLen h) (hdrLen h) 20).length) 0 := by
  obtain ⟨hr20,hrl,hrm,hk⟩ := reducedLen_le h h20
  have h60 := (hdrLen_le h).1
  obtain ⟨l,hl⟩ : ∃ l,kept h (hdrLen h) (hdrLen h) 20=l := ⟨_,rfl⟩
  rw [hl] at hk ⊢
  obtain ⟨b,hb⟩ : ∃ b,((out.copy 0 h 20).copy 20 (ofList l) l.length).fill (20+l.length) 0 (reducedLen h-20-l.length)=b :=
    ⟨_,rfl⟩
  have hr : reduced h out=setVerIhl b (reducedLen h/4) := by
    unfold reduced
    dsimp only
    rw [hl,hb]
  have hot : ∀ i,1 ≤ i → (reduced h out) i=b i := by
    intro i hi
    rw [hr]
    exact wr8_other (by omega)
  obtain ⟨hv,hh⟩ := version_setVerIhl b (show reducedLen h/4<16 by omega)
  refine ⟨by rw [hr]; exact hv,?_,fun i h1 h2 => ?_,?_⟩
  · rw [hr,hh]
    omega
  · rw [hot i h1,←hb,fill_outside (.inl (by omega)),copy_outside (.inl h2),copy_inside (Nat.zero_le i) (by omega),
      Nat.sub_zero]
  · -- the copied options, and zeros up to the whole word
    have hs : reducedLen h-20=l.length+(reducedLen h-20-l.length) := by omega
    rw [hs,span_add,drop_drop,Nat.add_sub_cancel_left]
    congr 1
    · refine (span_congr fun i hi => ?_).trans (span_ofList l)
      refine (hot (20+i) (by omega)).trans ?_
      rw [←hb,fill_outside (.inl (by omega)),copy_inside (by omega) (by omega),Nat.add_sub_cancel_left]
    · refine List.eq_replicate_iff.2 ⟨length_span,fun x hx => ?_⟩
      obtain ⟨i,hi,rfl⟩ := List.mem_map.1 hx
      have hi := List.mem_range.1 hi
      refine (hot (20+l.length+i) (by omega)).trans ?_
      rw [←hb,fill_inside (by omega) (by omega)]

theorem Open.emit_rest (hs : c.split) (hd : c.done=false) (hi : c.index≠0) (out : Octets) : Fragment h c (c.emit out) := by
  obtain ⟨h20,h60,ht,hlt⟩ := ho.lengths
  obtain ⟨hlf,-,-,-⟩ := ho.between hs hd
  obtain ⟨hr20,hrl,-,-⟩ := reducedLen_le h h20
  have hfr : c.first=false := beq_eq_false_iff_ne.2 hi
  have hh : c.hdrNow=reducedLen h := by
    unfold hdrNow
    rw [hs,hfr,Bool.not_true,Bool.false_or,if_neg nofun,ho.hdr2Len hs]
  obtain ⟨-,hct⟩ := ho.chunkNow hd
  have hdt := ho.dataLen
  have hl : c.lenNow=reducedLen h+c.chunkNow := by
    unfold lenNow
    rw [hh]
  obtain ⟨hv,hr,hf,hop⟩ := reduced_fields h20
  have he : c.emit out=(recksum (setFlagsFrag (setTotalLen (reduced h out) c.lenNow)
      (flagsOf c.moreNow c.unitsNow))).copy (reducedLen h) (h.drop (Ip4.hdrLen h+c.cursor)) c.chunkNow := by
    unfold emit emitRest copyOptions
    rw [hs,hfr,Bool.not_true,if_neg nofun,if_neg nofun]
    dsimp only
    rw [copyLoop_eq,ho.dgram,ho.hdrLen,ho.hdr2Len hs,hl]
    simp only [Nat.zero_add,Nat.add_zero]
    rfl
  have hc : Ip4.Corrected (reduced h out) c.lenNow (flagsOf c.moreNow c.unitsNow) (c.emit out) := by
    refine corrected hv (by rw [hr]; exact hr20) (by rw [hr,hl]; omega) (by rw [hl]; omega) fun i hi => ?_
    rw [he]
    exact copy_outside (.inl (by rw [←hr]; exact hi))
  refine fragment_of_corrected (ho.unitsNow hs hd) hc (hr.trans hh.symm) rfl rfl ⟨?_,?_,?_,?_⟩ (fun i hi => ?_)
    (fun hz => (hi hz).elim) fun _ os hos => ?_
  · exact rd16_congr fun i h1 h2 => hf i (by omega) (by omega)
  · exact hf 9 (by decide) (by decide)
  · exact rd32_congr fun i h1 h2 => hf i (by omega) (by omega)
  · exact rd32_congr fun i h1 h2 => hf i (by omega) (by omega)
  · rw [he,hh,copy_inside (by omega) (by omega),Nat.add_sub_cancel_left]
    rfl
  · have hsm : options (c.emit out)=((reduced h out).drop 20).span (reducedLen h-20) := by
      unfold options
      rw [hc.hdrLen,hr]
      exact span_congr fun i hi => hc.options (20+i) (by omega) (by rw [hr]; omega)
    rw [hsm,hop,kept_lists (by omega) hos]
    exact hos.filter copied _

theorem Open.emit (hd : c.done=false) (out : Octets) : Fragment h c (c.emit out) := by
  cases hs : c.split with
  | false => exact ho.emit_whole hs hd out
  | true =>
    by_cases hi : c.index=0
    · exact ho.emit_first hs hd hi out
    · exact ho.emit_rest hs hd hi out

end Contexts

end IdemIp.Ip4Frag
