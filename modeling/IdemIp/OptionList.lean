import Mathlib.Data.List.Basic

/-!
# Option lists

An area of options, each a single octet or a type octet, an octet that counts the
whole option, and its data. A zero octet ends the list before the area does, and a
one is an option by itself. The octets of any of the options, padded with zeros,
list just those options.
-/

namespace IdemIp.OptionList

/-- An area and the options it lists. -/
inductive Lists : List (BitVec 8) → List (List (BitVec 8)) → Prop
  | nil : Lists [] []
  | eol (pad : List (BitVec 8)) : Lists (0::pad) []
  | nop {l : List (BitVec 8)} {os : List (List (BitVec 8))} (h : Lists l os) : Lists (1::l) ([1]::os)
  | long {t n : BitVec 8} {o l : List (BitVec 8)} {os : List (List (BitVec 8))} (h0 : t≠0) (h1 : t≠1)
      (hn : n.toNat=o.length+2) (h : Lists l os) : Lists (t::n::(o++l)) ((t::n::o)::os)

/-- The flag in an option's type octet that asks for a copy in every fragment. -/
def copied (o : List (BitVec 8)) : Bool := o.headD 0 &&& 0x80 != 0

section Areas

variable {l : List (BitVec 8)} {os : List (List (BitVec 8))}

theorem lists_zeros {k : ℕ} : Lists (List.replicate k 0) [] := by
  cases k with
  | zero => exact .nil
  | succ k => exact .eol _

theorem Lists.filter (h : Lists l os) (p : List (BitVec 8) → Bool) (k : ℕ) :
    Lists ((os.filter p).flatten++List.replicate k 0) (os.filter p) := by
  induction h with
  | nil => exact lists_zeros
  | eol pad => exact lists_zeros
  | @nop l os h ih =>
    rw [List.filter_cons]
    split_ifs
    · exact .nop ih
    · exact ih
  | @long t n o l os h0 h1 hn h ih =>
    rw [List.filter_cons]
    split_ifs
    · rw [List.flatten_cons,List.append_assoc]
      exact .long h0 h1 hn ih
    · exact ih

end Areas

end IdemIp.OptionList
