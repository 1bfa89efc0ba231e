import Mathlib.Algebra.Ring.Nat
import Mathlib.Data.List.Basic

/-!
# Octets behind a pointer and their checksum, RFC 1071

A pointer is what it reads at each offset, so a span is a pointer and a length. The
running sum is a 32-bit word over sixteen-bit pairs in network order, folded twice;
a build that takes the words of its host gets the same sum.
-/

namespace IdemIp

open BitVec Nat

/-- What a pointer reads at each offset from it. -/
abbrev Octets := ℕ → BitVec 8

namespace Octets

variable (p : Octets) (off : ℕ)

/-- A buffer that holds the list and zeros behind it. -/
def ofList (l : List (BitVec 8)) : Octets := fun i => l.getD i 0

def zero : Octets := fun _ => 0

/-- The pointer `p+k`. -/
def drop (k : ℕ) : Octets := fun i => p (k+i)

/-- Sixteen bits in network order, `idemip_rd16`. -/
def rd16 : BitVec 16 := p 0++p 1

/-- Thirty-two bits in network order, `idemip_rd32`. -/
def rd32 : BitVec 32 := p 0++p 1++p 2++p 3

/-- Equality of two spans, `idemip_bytes_eq`. -/
def bytesEq (a b : Octets) (n : ℕ) : Bool := (List.range n).all fun i => a i==b i

/-- Equality of the leading bits. -/
def prefixEq (a b : Octets) (len : BitVec 8) : Bool :=
  let whole := (len>>>3).toNat
  let bits := len &&& 7
  a.bytesEq b whole && (bits==0 || (a whole ^^^ b whole) &&& (0xFF#8<<<(8-bits.toNat))==0)

/-- An all-zero span, `idemip_bytes_zero`. -/
def bytesZero (n : ℕ) : Bool := (List.range n).all fun i => p i==0

/-- The first `n` octets of one buffer, zero behind them. -/
def padded (n : ℕ) : Octets := fun i => if i<n then p i else 0

/-- Write sixteen bits in network order, `idemip_wr16`. -/
def wr16 (v : BitVec 16) : Octets := fun i =>
  if i=off then (v>>>8).setWidth 8 else if i=off+1 then v.setWidth 8 else p i

/-- Write thirty-two bits in network order, `idemip_wr32`. -/
def wr32 (v : BitVec 32) : Octets := fun i =>
  if i=off then (v>>>24).setWidth 8
  else if i=off+1 then (v>>>16).setWidth 8
  else if i=off+2 then (v>>>8).setWidth 8
  else if i=off+3 then v.setWidth 8
  else p i

def wr8 (v : BitVec 8) : Octets := fun i => if i=off then v else p i

/-- Write a copy of a span, `memcpy`. -/
def copy (src : Octets) (n : ℕ) : Octets := fun i =>
  if off ≤ i ∧ i<off+n then src (i-off) else p i

/-- Write one octet over a span, `memset`. -/
def fill (v : BitVec 8) (n : ℕ) : Octets := fun i => if off ≤ i ∧ i<off+n then v else p i

/-- The octets of a span. -/
def span (n : ℕ) : List (BitVec 8) := (List.range n).map p

theorem bytesEq_iff {a b : Octets} {n : ℕ} : bytesEq a b n=true ↔ ∀ i<n,a i=b i := by
  simp [bytesEq]

theorem bytesZero_iff {p : Octets} {n : ℕ} : bytesZero p n=true ↔ ∀ i<n,p i=0 := by
  simp [bytesZero]

theorem padded_eq {p : Octets} {n i : ℕ} (h : i<n) : padded p n i=p i := if_pos h

theorem bytesEq_padded {p q : Octets} {n : ℕ} : p.bytesEq (q.padded n) n=p.bytesEq q n := by
  rw [Bool.eq_iff_iff,bytesEq_iff,bytesEq_iff]
  constructor
  · intro h k hk
    rw [h k hk,padded_eq hk]
  · intro h k hk
    rw [h k hk,padded_eq hk]

theorem padded_bytesEq (q : Octets) (n : ℕ) : (q.padded n).bytesEq q n=true :=
  bytesEq_iff.2 fun _ hk => padded_eq hk

theorem zero_bytesEq {q : Octets} {n : ℕ} : bytesEq zero q n=q.bytesZero n := by
  rw [Bool.eq_iff_iff,bytesEq_iff,bytesZero_iff]
  exact forall₂_congr fun _ _ => eq_comm

section Writes

variable {p q src : Octets} {off i k m n : ℕ} {v : BitVec 16} {v32 : BitVec 32} {b : BitVec 8}

theorem rd16_congr (h : ∀ i,k ≤ i → i<k+2 → p i=q i) : (p.drop k).rd16=(q.drop k).rd16 := by
  unfold rd16 drop
  rw [h (k+0) (by omega) (by omega),h (k+1) (by omega) (by omega)]

theorem rd32_congr (h : ∀ i,k ≤ i → i<k+4 → p i=q i) : (p.drop k).rd32=(q.drop k).rd32 := by
  unfold rd32 drop
  rw [h (k+0) (by omega) (by omega),h (k+1) (by omega) (by omega),h (k+2) (by omega) (by omega),h (k+3) (by omega) (by omega)]

theorem halves_append (v : BitVec 16) : (v>>>8).setWidth 8++v.setWidth 8=v := by
  have hv := v.isLt
  have hlow : v.toNat%2^8<2^8 := mod_lt _ (by decide)
  apply eq_of_toNat_eq
  rw [toNat_append,toNat_setWidth,toNat_setWidth,toNat_ushiftRight,
    ← Nat.shiftLeft_add_eq_or_of_lt hlow,Nat.shiftLeft_eq,Nat.shiftRight_eq_div_pow]
  omega

theorem rd16_wr16 (p : Octets) (off : ℕ) (v : BitVec 16) : ((p.wr16 off v).drop off).rd16=v := by
  have h0 : (p.wr16 off v) (off+0)=(v>>>8).setWidth 8 := if_pos rfl
  have h1 : (p.wr16 off v) (off+1)=v.setWidth 8 := (if_neg (by omega)).trans (if_pos rfl)
  unfold rd16 drop
  rw [h0,h1]
  exact halves_append v

theorem wr16_other (h : i<off ∨ off+1 < i) : (p.wr16 off v) i=p i := by
  unfold wr16
  rw [if_neg (by omega),if_neg (by omega)]

theorem quarters_append (v : BitVec 32) : (v>>>24).setWidth 8++(v>>>16).setWidth 8++(v>>>8).setWidth 8++v.setWidth 8=v := by
  have hv := v.isLt
  have h1 : (v>>>16).toNat%2^8<2^8 := mod_lt _ (by decide)
  have h2 : (v>>>8).toNat%2^8<2^8 := mod_lt _ (by decide)
  have h3 : v.toNat%2^8<2^8 := mod_lt _ (by decide)
  apply eq_of_toNat_eq
  rw [toNat_append,toNat_append,toNat_append,toNat_setWidth,toNat_setWidth,
    toNat_setWidth,toNat_setWidth,←shiftLeft_add_eq_or_of_lt h1,←shiftLeft_add_eq_or_of_lt h2,
    ← shiftLeft_add_eq_or_of_lt h3]
  simp only [BitVec.toNat_ushiftRight,Nat.shiftLeft_eq,Nat.shiftRight_eq_div_pow]
  omega

theorem rd32_wr32 {p : Octets} {off : ℕ} {v : BitVec 32} : ((p.wr32 off v).drop off).rd32=v := by
  have h0 : (p.wr32 off v) (off+0)=(v>>>24).setWidth 8 := if_pos rfl
  have h1 : (p.wr32 off v) (off+1)=(v>>>16).setWidth 8 := (if_neg (by omega)).trans (if_pos rfl)
  have h2 : (p.wr32 off v) (off+2)=(v>>>8).setWidth 8 :=
    (if_neg (by omega)).trans ((if_neg (by omega)).trans (if_pos rfl))
  have h3 : (p.wr32 off v) (off+3)=v.setWidth 8 :=
    (if_neg (by omega)).trans ((if_neg (by omega)).trans ((if_neg (by omega)).trans (if_pos rfl)))
  unfold rd32 drop
  rw [h0,h1,h2,h3]
  exact quarters_append v

theorem wr32_other (h : i<off ∨ off+3 < i) : (p.wr32 off v32) i=p i := by
  unfold wr32
  rw [if_neg (by omega),if_neg (by omega),if_neg (by omega),if_neg (by omega)]

theorem wr8_other (h : i≠off) : (p.wr8 off b) i=p i := if_neg h

theorem copy_inside (h : off ≤ i) (h' : i<off+n) : (p.copy off src n) i=src (i-off) := if_pos ⟨h,h'⟩

theorem copy_outside (h : i<off ∨ off+n ≤ i) : (p.copy off src n) i=p i := if_neg (by omega)

theorem fill_inside (h : off ≤ i) (h' : i<off+n) : (p.fill off b n) i=b := if_pos ⟨h,h'⟩

theorem fill_outside (h : i<off ∨ off+n ≤ i) : (p.fill off b n) i=p i := if_neg (by omega)

theorem span_congr (h : ∀ i<n,p i=q i) : p.span n=q.span n := List.map_congr_left fun i hi => h i (List.mem_range.1 hi)

theorem length_span {p : Octets} {n : ℕ} : (p.span n).length=n := by
  rw [span,List.length_map,List.length_range]

theorem span_add (p : Octets) (m n : ℕ) : p.span (m+n)=p.span m++(p.drop m).span n := by
  unfold span
  rw [List.range_add,List.map_append,List.map_map]
  rfl

theorem span_succ (p : Octets) (n : ℕ) : p.span (n+1)=p 0::(p.drop 1).span n := by
  rw [Nat.add_comm,span_add]
  rfl

theorem drop_drop (p : Octets) (m n : ℕ) : (p.drop m).drop n=p.drop (m+n) := by
  funext i
  unfold drop
  rw [Nat.add_assoc]

end Writes

end Octets

/-- RFC 1122 sec 3.2.1.3's address forms, `IdemIpIp4AddrType`. -/
inductive Ip4AddrType
  | unspecified | thisNetwork | loopback | linkLocal | multicast | reserved | broadcast | unicast
deriving DecidableEq

/-- Whether the bits under a mask are a tag, `idemip_ip4_addr_tagged`. -/
def ip4AddrTagged (addr mask tag : BitVec 32) : Bool := addr &&& mask==tag

/-- Class D, `idemip_ip4_addr_is_mcast`. -/
def ip4AddrIsMcast (addr : BitVec 32) : Bool := ip4AddrTagged addr 0xF0000000 0xE0000000

/-- Form of an IPv4 address, `idemip_ip4_addr_type`. -/
def ip4AddrType (addr : BitVec 32) : Ip4AddrType :=
  if addr=0xFFFFFFFF then .broadcast
  else if addr=0 then .unspecified
  else if ip4AddrTagged addr 0xFF000000 0 then .thisNetwork
  else if ip4AddrTagged addr 0xFF000000 0x7F000000 then .loopback
  else if ip4AddrTagged addr 0xFFFF0000 0xA9FE0000 then .linkLocal
  else if ip4AddrIsMcast addr then .multicast
  else if ip4AddrTagged addr 0xF0000000 0xF0000000 then .reserved
  else .unicast

/-- RFC 4291's address forms, `IdemIpIp6Type`. -/
inductive Ip6AddrType
  | unspecified | loopback | v4Compat | v4Mapped | linkLocal | siteLocal | multicast | globalUnicast
deriving DecidableEq

/-- Form of an IPv6 address, `idemip_ip6_addr_type`. -/
def ip6AddrType (addr : Octets) : Ip6AddrType :=
  if addr 0=0xFF then .multicast
  else if addr 0=0xFE ∧ addr 1 &&& 0xC0=0x80 then .linkLocal
  else if addr 0=0xFE ∧ addr 1 &&& 0xC0=0xC0 then .siteLocal
  else if addr.bytesZero 10 then
    if addr 10=0xFF ∧ addr 11=0xFF then .v4Mapped
    else if addr 10=0 ∧ addr 11=0 then
      if (addr.drop 12).bytesZero 3 ∧ addr 15=1 then .loopback
      else if (addr.drop 12).bytesZero 4 then .unspecified
      else .v4Compat
    else .globalUnicast
  else .globalUnicast

end IdemIp

namespace IdemIp.Checksum

open BitVec Nat Octets

variable (sum : BitVec 32) (p : Octets)

def fold : BitVec 32 := (sum &&& 0xFFFF)+(sum>>>16)

/-- The sum of `n` sixteen-bit pairs from an offset. -/
def pairs (p : Octets) : ℕ → ℕ → BitVec 32 → BitVec 32
  | 0,_,sum => sum
  | n+1,i,sum => pairs p n (i+2) (sum+(p i++p (i+1)).setWidth 32)

/-- The running sum over a span, `idemip_cksum_accum`. -/
def accum (len : ℕ) : BitVec 32 :=
  let even := pairs p (len/2) 0 sum
  let all := if len%2=1 then even+(p (len-1)).setWidth 32<<<8 else even
  fold (fold all)

/-- The complement of the folded sum, `idemip_cksum_final`. -/
def final : BitVec 16 := ~~~(fold (fold sum)).setWidth 16

/-- Whether a span that carries its own checksum is intact, `idemip_cksum_valid`. -/
def valid (len : ℕ) : Bool := final (accum 0 p len)==0

/-- The checksum over a span, `idemip_cksum`. -/
def cksum (len : ℕ) : BitVec 16 := final (accum 0 p len)

/-- The high half of a word, as a sum adds it. -/
def high (x : BitVec 32) : BitVec 32 := x>>>16 &&& 0xFFFF

/-- The low half of a word. -/
def low (x : BitVec 32) : BitVec 32 := x &&& 0xFFFF

/-- RFC 768's pseudo-header, `idemip_pseudo4_accum`. -/
def pseudo4 (proto : BitVec 8) (src dst : Octets) (len : BitVec 32) : Option (BitVec 32) :=
  if 0xFFFF<len then none
  else some (sum+high src.rd32+low src.rd32+high dst.rd32+low dst.rd32+proto.setWidth 32+len)

/-- RFC 8200 sec 8.1's pseudo-header, `idemip_pseudo6_accum`. -/
def pseudo6 (proto : BitVec 8) (src dst : Octets) (len : BitVec 32) : BitVec 32 :=
  accum (accum sum src 16) dst 16+high len+low len+proto.setWidth 32

/-- The pseudo-header of a family, `idemip_pseudo_accum`. -/
def pseudo (ipVersion : ℕ) (proto : BitVec 8) (src dst : Octets) (len : BitVec 32) :
    Option (BitVec 32) :=
  if ipVersion=4 then pseudo4 sum proto src dst len
  else if ipVersion=6 then some (pseudo6 sum proto src dst len)
  else none

variable {s len k : ℕ}

section Seal

/-- The same sum without a width. -/
def words (p : Octets) : ℕ → ℕ → ℕ
  | 0,_ => 0
  | n+1,i => (p i++p (i+1)).toNat+words p n (i+2)

theorem words_le (p : Octets) (n i : ℕ) : words p n i≤n*65535 := by
  induction n generalizing i with
  | zero => exact zero_le _
  | succ n ih =>
    have hrest := ih (i+2)
    have hword : (p i++p (i+1)).toNat<2^16 := (p i++p (i+1)).isLt
    unfold words
    omega

theorem pairs_toNat (p : Octets) (n i : ℕ) (sum : BitVec 32) (h : sum.toNat+n*65535<2^32) :
    (pairs p n i sum).toNat=sum.toNat+words p n i := by
  induction n generalizing i sum with
  | zero => rfl
  | succ n ih =>
    have hword : (p i++p (i+1)).toNat<2^16 := (p i++p (i+1)).isLt
    have ha : (sum+(p i++p (i+1)).setWidth 32).toNat=sum.toNat+(p i++p (i+1)).toNat := by
      rw [toNat_add,toNat_setWidth]
      omega
    unfold pairs words
    rw [ih _ _ (by rw [ha]; omega),ha]
    omega

/-- One end-around carry without a width. -/
def carry (s : ℕ) : ℕ := s%65536+s/65536

theorem fold_toNat (s : BitVec 32) : (fold s).toNat=carry s.toNat := by
  have hs := s.isLt
  have hms : ∀ m : BitVec 32,m.toNat=2^16-1 → (s &&& m).toNat=s.toNat%65536 := by
    intro m hm
    rw [toNat_and,hm]
    exact and_two_pow_sub_one_eq_mod s.toNat 16
  unfold fold carry
  rw [toNat_add,hms,toNat_ushiftRight,shiftRight_eq_div_pow]
  · omega
  · rfl

/-- Two carries leave sixteen bits that agree with the sum modulo their largest value. -/
theorem carry_carry (h : s<2^32) : carry (carry s)≤65535 ∧ carry (carry s)%65535=s%65535 ∧ (carry (carry s)=0 ↔ s=0) := by
  unfold carry
  omega

theorem carry_small (h : s≤65535) : carry s=s := by
  unfold carry
  omega

theorem cksum_toNat (p : Octets) (heven : len%2=0) (hlen : len≤1000) :
    (cksum p len).toNat=65535-carry (carry (words p (len/2) 0)) := by
  have hs := pairs_toNat p (len/2) 0 0 (by simp; omega)
  have hle := words_le p (len/2) 0
  rw [show (0 : BitVec 32).toNat=0 from rfl,Nat.zero_add] at hs
  obtain ⟨hc,-,-⟩ := carry_carry (show words p (len/2) 0<2^32 by omega)
  have ha : (accum 0 p len).toNat=carry (carry (words p (len/2) 0)) := by
    unfold accum
    dsimp only
    rw [if_neg (by omega),fold_toNat,fold_toNat]
    exact congrArg (fun s => carry (carry s)) hs
  unfold cksum final
  rw [toNat_not,toNat_setWidth,fold_toNat,fold_toNat,ha,carry_small hc,carry_small hc]
  omega

/-- A span of an even length is intact when its sum is a positive multiple of the largest value. -/
theorem valid_iff {p : Octets} (he : len%2=0) (hl : len≤1000) :
    valid p len=true ↔ 0<words p (len/2) 0 ∧ words p (len/2) 0%65535=0 := by
  have ho := cksum_toNat p he hl
  have hle := words_le p (len/2) 0
  obtain ⟨hc,hmod,hzero⟩ := carry_carry (show words p (len/2) 0<2^32 by omega)
  have hv : valid p len=true ↔ (cksum p len).toNat=0 := by
    unfold valid
    rw [beq_iff_eq]
    exact ⟨fun h => by unfold cksum; rw [h]; rfl,fun h => eq_of_toNat_eq h⟩
  rw [hv,ho]
  omega

/-- Writing a word over zeros on an even place adds it to the sum. -/
theorem words_wr16 {p : Octets} {v : BitVec 16} {n i : ℕ} (hk : k<n) :
    words (p.wr16 (i+2*k) v) n i=words (p.wr16 (i+2*k) 0) n i+v.toNat := by
  induction n generalizing k i with
  | zero => omega
  | succ n ih =>
    unfold words
    cases k with
    | zero =>
      -- the word itself; those behind it are the same
      have hw : ∀ x : BitVec 16,(p.wr16 (i+2*0) x) i++(p.wr16 (i+2*0) x) (i+1)=x := fun x => rd16_wr16 p i x
      have hr : ∀ m j,i+2≤j → words (p.wr16 (i+2*0) v) m j=words (p.wr16 (i+2*0) 0) m j := by
        intro m
        induction m with
        | zero => exact fun j _ => rfl
        | succ m ihm =>
          intro j hj
          unfold words
          rw [wr16_other (by omega),wr16_other (by omega),wr16_other (by omega),
            wr16_other (by omega),ihm (j+2) (by omega)]
      rw [hw,hw,hr n (i+2) (Nat.le_refl _),show (0 : BitVec 16).toNat=0 from rfl]
      omega
    | succ k =>
      have hi := ih (i := i+2) (show k<n by omega)
      rw [show i+2+2*k=i+2*(k+1) by omega] at hi
      rw [hi,wr16_other (by omega),wr16_other (by omega),wr16_other (by omega),
        Octets.wr16_other (by omega)]
      omega

/-- A span sealed with its checksum, over zeros on an even place, is intact. -/
theorem valid_seal (p : Octets) (he : len%2=0) (hl : len≤1000) (hk : 2*k<len) :
    valid (p.wr16 (2*k) (cksum (p.wr16 (2*k) 0) len)) len=true := by
  have hs : words (p.wr16 (0+2*k) (cksum (p.wr16 (2*k) 0) len)) (len/2) 0=_ :=
    words_wr16 (show k<len/2 by omega)
  rw [Nat.zero_add,cksum_toNat _ he hl] at hs
  have hle := words_le (p.wr16 (2*k) 0) (len/2) 0
  obtain ⟨hc,hmod,hzero⟩ := carry_carry (show words (p.wr16 (2*k) 0) (len/2) 0<2^32 by omega)
  rw [valid_iff he hl,hs]
  omega

end Seal

section Word

/-- How a host takes words: the sixteen-bit pairs in one, and whether its first octet is the low one. -/
structure Host where
  pairs : ℕ
  little : Bool
  width : pairs=2 ∨ pairs=4

/-- The word that a copy of `n` octets from an offset gives. -/
def load (little : Bool) (p : Octets) : ℕ → ℕ → ℕ
  | 0,_ => 0
  | n+1,i => if little then (p i).toNat+256*load little p n (i+1) else 256*load little p n i+(p (i+n)).toNat

variable (h : Host)

/-- Add a word, and the carry out of it. -/
def addWord (acc w : ℕ) : ℕ :=
  let a := (acc+w)%65536^h.pairs
  (a+if a<w then 1 else 0)%65536^h.pairs

def sumWords (p : Octets) : ℕ → ℕ → ℕ → ℕ
  | 0,_,acc => acc
  | n+1,i,acc => sumWords p n (i+2*h.pairs) (addWord h acc (load h.little p (2*h.pairs) i))

/-- Sixteen bits of a word-wide sum, `cksum_fold_word`. -/
def foldWord (acc : ℕ) : ℕ :=
  let acc := if h.pairs=4 then acc%2^32+acc/2^32 else acc
  carry (carry (carry acc))%2^16

/-- The running sum by words, `cksum_accum` with `IDEMIP_CKSUM_WORD`. -/
def accumWord (sum : BitVec 32) (p : Octets) (len : ℕ) : BitVec 32 :=
  let n := len/(2*h.pairs)
  let folded := foldWord h (sumWords h p n 0 0)
  let folded := if h.little then folded%256*256+folded/256 else folded
  let sum := if len<2*h.pairs then sum else sum+BitVec.ofNat 32 folded
  let even := pairs p (len/2-h.pairs*n) (2*(h.pairs*n)) sum
  let all := if len%2=1 then even+(p (len-1)).setWidth 32<<<8 else even
  fold (fold all)

/-- A word-wide sum as the pairs are summed: its octets change places if the first is the low one. -/
def turned (acc : ℕ) : ℕ := if h.little then 256*acc else acc

/-- What an end-around sum keeps of a sum: the rest modulo the largest value, and whether it is zero. -/
def Wraps (x s : ℕ) : Prop := x%65535=s%65535 ∧ (x=0 ↔ s=0)

variable {h} {p : Octets}

theorem words_add (p : Octets) (m n i : ℕ) : words p (m+n) i=words p m i+words p n (i+2*m) := by
  induction m generalizing i with
  | zero => simp [words]
  | succ m ih =>
    rw [show m+1+n=m+n+1 by omega,words,words,ih,show i+2+2*m=i+2*(m+1) by omega]
    omega

theorem pair_toNat (x y : BitVec 8) : (x++y).toNat=256*x.toNat+y.toNat := by
  rw [toNat_append,←Nat.shiftLeft_add_eq_or_of_lt y.isLt,Nat.shiftLeft_eq]
  omega

theorem load_wraps (m i : ℕ) :
    Wraps (turned h (load h.little p (2*m) i)) (words p m i) ∧ load h.little p (2*m) i<65536^m := by
  unfold turned Wraps
  induction m generalizing i with
  | zero => simp [load,words]
  | succ m ih =>
    rw [show 2*(m+1)=2*m+1+1 by omega]
    cases hb : h.little with
    | true =>
      obtain ⟨hm,hl⟩ := ih (i+2)
      have hx := (p i).isLt
      have hy := (p (i+1)).isLt
      simp only [hb,show i+1+1=i+2 from rfl,load,words,pair_toNat,if_true,pow_succ] at hm hl ⊢
      omega
    | false =>
      obtain ⟨hm,hl⟩ := ih i
      have hx := (p (i+2*m)).isLt
      have hy := (p (i+2*m+1)).isLt
      rw [words_add]
      simp only [hb,load,words,pair_toNat,Bool.false_eq_true,if_false,pow_succ,←Nat.add_assoc] at hm hl ⊢
      omega

theorem addWord_wraps {acc w : ℕ} (ha : acc<65536^h.pairs) (hw : w<65536^h.pairs) :
    Wraps (addWord h acc w) (acc+w) ∧ addWord h acc w<65536^h.pairs := by
  unfold addWord Wraps
  rcases h.width with ho|ho <;> rw [ho] at ha hw ⊢ <;> dsimp only <;> split_ifs <;> omega

theorem sumWords_wraps (n i acc : ℕ) (ha : acc<65536^h.pairs) :
    Wraps (turned h (sumWords h p n i acc)) (turned h acc+words p (h.pairs*n) i) ∧ sumWords h p n i acc<65536^h.pairs := by
  induction n generalizing i acc with
  | zero => exact ⟨⟨rfl,Iff.rfl⟩,ha⟩
  | succ n ih =>
    obtain ⟨hw,hl⟩ := load_wraps (h := h) (p := p) h.pairs i
    obtain ⟨hs,hb⟩ := addWord_wraps ha hl
    obtain ⟨hr,hlt⟩ := ih (i+2*h.pairs) _ hb
    refine ⟨?_,hlt⟩
    rw [Nat.mul_succ,Nat.add_comm _ h.pairs,words_add,sumWords]
    generalize load h.little p (2*h.pairs) i=w at *
    generalize sumWords h p n (i+2*h.pairs) (addWord h acc w)=r at *
    unfold turned Wraps at *
    split_ifs at * <;> omega

theorem foldWord_wraps {acc : ℕ} (ha : acc<65536^h.pairs) : Wraps (foldWord h acc) acc ∧ foldWord h acc≤65535 := by
  have hc : carry (if h.pairs=4 then acc%2^32+acc/2^32 else acc)<2^32 ∧
      Wraps (carry (if h.pairs=4 then acc%2^32+acc/2^32 else acc)) acc := by
    unfold carry Wraps
    rcases h.width with ho|ho <;> rw [ho] at ha ⊢ <;> split_ifs <;> omega
  obtain ⟨hb,hm,hz⟩ := carry_carry hc.1
  unfold foldWord Wraps at *
  dsimp only
  omega

/-- Two folds tell no two sums apart that an end-around sum does not. -/
theorem fold_wraps {a b : BitVec 32} (hw : Wraps a.toNat b.toNat) : fold (fold a)=fold (fold b) := by
  obtain ⟨hc,hm,hz⟩ := carry_carry a.isLt
  obtain ⟨hc',hm',hz'⟩ := carry_carry b.isLt
  unfold Wraps at hw
  apply eq_of_toNat_eq
  rw [fold_toNat,fold_toNat,fold_toNat,fold_toNat]
  omega

/-- The path by words gives the very sum the loop over pairs gives, whatever the words of the host. -/
theorem accumWord_eq (h : Host) (sum : BitVec 32) (p : Octets) (len : ℕ) (hs : sum.toNat+len/2*65535+2*65535<2^32) :
    accumWord h sum p len=accum sum p len := by
  obtain ⟨hr,hlt⟩ := sumWords_wraps (h := h) (p := p) (len/(2*h.pairs)) 0 0 (Nat.pow_pos (by decide))
  obtain ⟨hf,hfl⟩ := foldWord_wraps hlt
  have hle : 2*(h.pairs*(len/(2*h.pairs)))≤len := by
    rw [←Nat.mul_assoc]
    exact Nat.mul_div_le len (2*h.pairs)
  have hz : len<2*h.pairs → h.pairs*(len/(2*h.pairs))=0 := fun hl => by rw [Nat.div_eq_of_lt hl,Nat.mul_zero]
  unfold accumWord accum
  dsimp only
  generalize h.pairs*(len/(2*h.pairs))=k at *
  generalize foldWord h _=f at *
  -- the sixteen bits, with their octets in order, stand for the pairs the words cover
  obtain ⟨hw,hwl⟩ : Wraps (if h.little then f%256*256+f/256 else f) (words p k 0) ∧
      (if h.little then f%256*256+f/256 else f)≤65535 := by
    unfold turned Wraps at *
    split_ifs at * <;> omega
  generalize (if h.little then f%256*256+f/256 else f)=folded at *
  have ha := words_add p k (len/2-k) 0
  have hb := words_le p (len/2) 0
  rw [Nat.add_sub_cancel' (by omega),Nat.zero_add] at ha
  have hsum : (if len<2*h.pairs then sum else sum+BitVec.ofNat 32 folded).toNat=sum.toNat+folded := by
    split_ifs with hl
    · rw [hz hl] at hw
      exact (Nat.add_eq_left.2 (hw.2.2 rfl)).symm
    · rw [toNat_add,toNat_ofNat]
      omega
  generalize (if len<2*h.pairs then sum else sum+BitVec.ofNat 32 folded)=start at *
  have he := pairs_toNat p (len/2-k) (2*k) start (by omega)
  have he' := pairs_toNat p (len/2) 0 sum (by omega)
  generalize pairs p (len/2-k) (2*k) start=e at *
  generalize pairs p (len/2) 0 sum=e' at *
  have hx := (p (len-1)).isLt
  unfold Wraps at hw
  split_ifs
  · have ho : ((p (len-1)).setWidth 32<<<8).toNat=256*(p (len-1)).toNat := by
      rw [toNat_shiftLeft,toNat_setWidth,Nat.shiftLeft_eq]
      omega
    apply fold_wraps
    unfold Wraps
    rw [toNat_add_of_lt (by omega),toNat_add_of_lt (by omega),ho]
    omega
  · apply fold_wraps
    unfold Wraps
    omega

/-- Eleven octets in one word of eight, a pair and an odd octet. -/
theorem accumWord_eq_eleven : let p := Octets.ofList [1,2,3,4,5,6,7,8,9,10,11]
    accumWord ⟨4,true,.inr rfl⟩ 0xFFFF p 11=accum 0xFFFF p 11 :=
  accumWord_eq _ _ _ _ (by decide)

end Word

end IdemIp.Checksum
