import Mathlib.Algebra.Group.Nat.Defs

/-!
# A counter and two flags in one word

An atomic word of `n + 2` bits whose two highest bits are flags and whose other bits count.
Programs read it with masks, set a flag with a bitwise or, and count with plain addition and
subtraction. Each word is `flagged high low count` for one count below `2^n`, and as long as
the count stays below that bound the operations act on the parts of the word separately.
-/

namespace Ractor
open BitVec

variable {n : ℕ}

def flagged (high low : Bool) (count : ℕ) : BitVec (n+2) :=
  cons high (cons low (BitVec.ofNat n count))

def highFlag (n : ℕ) : BitVec (n+2):=1#(n+2) <<< (n+1)

def lowFlag (n : ℕ) : BitVec (n+2):=1#(n+2) <<< n

def countMask (n : ℕ) : BitVec (n+2):=lowFlag n - 1

variable {count : ℕ} (high low : Bool)

theorem toNat_flagged (h : count<2^n) :
    (flagged high low count : BitVec (n+2)).toNat =
      high.toNat*2^(n+1)+low.toNat*2^n+count := by
  simp only [flagged,toNat_cons',toNat_ofNat,Nat.mod_eq_of_lt h,Nat.shiftLeft_eq,Nat.add_assoc]

theorem toNat_lowFlag (n : ℕ) : (lowFlag n).toNat=2^n := by
  rw [lowFlag,← twoPow_eq,toNat_twoPow_of_lt (by omega)]

theorem highFlag_eq (n : ℕ) : highFlag n=flagged true false 0 := by
  apply eq_of_toNat_eq
  rw [toNat_flagged _ _ (Nat.two_pow_pos n),highFlag,← twoPow_eq,toNat_twoPow_of_lt (by omega)]
  simp

theorem lowFlag_eq (n : ℕ) : lowFlag n=flagged false true 0 := by
  apply eq_of_toNat_eq
  rw [toNat_flagged _ _ (Nat.two_pow_pos n),toNat_lowFlag]
  simp

theorem countMask_eq (n : ℕ) : countMask n=flagged false false (2^n - 1) := by
  have hp:=Nat.two_pow_pos n
  apply eq_of_toNat_eq
  rw [toNat_flagged _ _ (by omega),countMask,toNat_sub,toNat_lowFlag]
  have h2 : 2^(n+2)=2^n*4 := by rw [Nat.pow_add]
  have h1 : (1 : BitVec (n+2)).toNat=1 := by
    simp
  rw [h1,h2,show 2^n*4 - 1+2^n=2^n - 1+2^n*4 by omega,Nat.add_mod_right,Nat.mod_eq_of_lt (by omega)]
  simp

theorem flagged_inj {high low high' low' : Bool} {count' : ℕ} (h : count<2^n) (h' : count'<2^n)
    (he : (flagged high low count : BitVec (n+2))=flagged high' low' count') :
    high=high' ∧ low=low' ∧ count=count' := by
  have ht:=congrArg BitVec.toNat he
  rw [toNat_flagged _ _ h,toNat_flagged _ _ h',Nat.pow_succ] at ht
  cases high <;> cases high' <;> cases low <;> cases low' <;> simp at ht ⊢ <;> omega

/-! ### Counting -/

theorem flagged_add_one (h : count+1<2^n) :
    (flagged high low count : BitVec (n+2))+1=flagged high low (count+1) := by
  apply eq_of_toNat_eq
  rw [toNat_flagged _ _ h,toNat_add,toNat_flagged _ _ (by omega)]
  have h1 : (1 : BitVec (n+2)).toNat=1 := by simp
  have h2 : 2^(n+2)=2^n*4 := by rw [Nat.pow_add]
  have h3 : 2^(n+1)=2^n*2:=Nat.pow_succ ..
  rw [h1,Nat.mod_eq_of_lt (by cases high <;> cases low <;> simp <;> omega)]
  omega

theorem flagged_sub_one (h : count+1<2^n) :
    (flagged high low (count+1) : BitVec (n+2)) - 1=flagged high low count := by
  rw [← flagged_add_one high low h,add_sub_cancel]

/-! ### Masks -/

theorem flagged_and (high low high' low' : Bool) (count count' : ℕ) :
    (flagged high low count &&& flagged high' low' count' : BitVec (n+2)) =
      flagged (high && high') (low && low') (count &&& count') := by
  simp [flagged,ofNat_and]

theorem flagged_or (high low high' low' : Bool) (count count' : ℕ) :
    (flagged high low count ||| flagged high' low' count' : BitVec (n+2)) =
      flagged (high || high') (low || low') (count ||| count') := by
  simp [flagged,ofNat_or]

theorem flagged_eq_zero {high low : Bool} (h : count<2^n) :
    (flagged high low count : BitVec (n+2))=0 ↔ high=false ∧ low=false ∧ count=0 := by
  have hz : (0 : BitVec (n+2))=flagged false false 0 := by
    apply eq_of_toNat_eq
    rw [toNat_flagged _ _ (Nat.two_pow_pos n)]
    simp
  rw [hz]
  constructor
  · exact flagged_inj h (Nat.two_pow_pos n)
  · rintro ⟨rfl,rfl,rfl⟩
    rfl

@[simp] theorem flagged_and_highFlag (count : ℕ) :
    (flagged high low count : BitVec (n+2)) &&& highFlag n=0 ↔ high=false := by
  rw [highFlag_eq,flagged_and,Nat.and_zero,flagged_eq_zero (Nat.two_pow_pos n)]
  simp

@[simp] theorem flagged_and_lowFlag (count : ℕ) :
    (flagged high low count : BitVec (n+2)) &&& lowFlag n=0 ↔ low=false := by
  rw [lowFlag_eq,flagged_and,Nat.and_zero,flagged_eq_zero (Nat.two_pow_pos n)]
  simp

theorem flagged_and_countMask (h : count<2^n) :
    (flagged high low count : BitVec (n+2)) &&& countMask n=flagged false false count := by
  rw [countMask_eq,flagged_and,Nat.and_two_pow_sub_one_eq_mod,Nat.mod_eq_of_lt h]
  simp

theorem flagged_and_countMask_eq_zero (h : count<2^n) :
    (flagged high low count : BitVec (n+2)) &&& countMask n=0 ↔ count=0 := by
  rw [flagged_and_countMask high low h,flagged_eq_zero h]
  simp

theorem flagged_and_countMask_eq_one (hn : 0<n) (h : count<2^n) :
    (flagged high low count : BitVec (n+2)) &&& countMask n=1 ↔ count=1 := by
  have h1 : 1<2^n:=Nat.one_lt_two_pow (by omega)
  have he : (1 : BitVec (n+2))=flagged false false 1 := by
    apply eq_of_toNat_eq
    rw [toNat_flagged _ _ h1]
    simp
  rw [flagged_and_countMask high low h,he]
  constructor
  · exact fun hc => (flagged_inj h h1 hc).2.2
  · rintro rfl
    rfl

@[simp] theorem flagged_or_highFlag (count : ℕ) :
    (flagged high low count : BitVec (n+2)) ||| highFlag n=flagged true low count := by
  rw [highFlag_eq,flagged_or]
  simp

@[simp] theorem flagged_or_lowFlag (count : ℕ) :
    (flagged high low count : BitVec (n+2)) ||| lowFlag n=flagged high true count := by
  rw [lowFlag_eq,flagged_or]
  simp

end Ractor
